import ReferenceSemantics.Program.CallGraph
import ReferenceSemantics.Proofs.NameMap
import ReferenceSemantics.Proofs.Program.Sites

set_option autoImplicit false

/-!
The variables and functions that a program mentions.

The check of a statement has met every expression in it, at any depth. So every variable that occurs
there is a local declared before or a global.
-/

namespace ReferenceSemantics

open Check

/-- The variable that an expression reads or whose address it takes. -/
def Expr.variable? : Expr → Option String
  | var name => some name
  | addrOf place => place.rootVar
  | _ => none

/-- The variable that a statement assigns, or that its place starts from. -/
def Stmt.target? : Stmt → Option String
  | assign target _ => some target
  | setField target _ _ | setIndex target _ _ | setKey target _ _ | append target _ =>
      target.rootVar
  | _ => none

/-- Every variable in a statement. -/
def Stmt.variables (stmt : Stmt) : List String :=
  stmt.target?.toList ++ stmt.parts.filterMap Expr.variable?

namespace Scope

variable {scope : Scope}

/-- A name that may be used. -/
def Sees (scope : Scope) (name : String) : Prop := name ∈ scope.locals ∨ name ∈ scope.globals

/-- The expressions have passed the check. -/
def Admits (scope : Scope) (exprs : List Expr) : Prop :=
  ∀ expr ∈ exprs, Gives (scope.checkExpr expr) ()

theorem admits_nil : scope.Admits [] := List.forall_mem_nil _

theorem admits_singleton {expr : Expr} (gives : Gives (scope.checkExpr expr) ()) :
    scope.Admits [expr] :=
  List.forall_mem_singleton.mpr gives

theorem Admits.cons {expr : Expr} {exprs : List Expr} (gives : Gives (scope.checkExpr expr) ())
    (rest : scope.Admits exprs) : scope.Admits (expr :: exprs) :=
  List.forall_mem_cons.mpr ⟨gives, rest⟩

theorem Admits.append {first second : List Expr} (before : scope.Admits first)
    (after : scope.Admits second) : scope.Admits (first ++ second) :=
  List.forall_mem_append.mpr ⟨before, after⟩

theorem gives_checkName {name : String} (gives : Gives (scope.checkName name) ()) :
    scope.Sees name := by
  unfold checkName at gives
  split at gives
  next visible => simpa [Sees] using visible
  next => exact absurd gives not_gives_refuse

theorem gives_checkPlace : ∀ {place : Place}, Gives (scope.checkPlace place) () →
    (∀ name, place.rootVar = some name → scope.Sees name) ∧ scope.Admits place.operands
  | .var name, gives => by
      rw [checkPlace] at gives
      refine ⟨?_, admits_nil⟩
      rintro _ ⟨⟩
      exact gives_checkName gives
  | .field base _, gives => by
      rw [checkPlace] at gives
      exact @gives_checkPlace base gives
  | .deref pointer, gives => by
      rw [checkPlace] at gives
      exact ⟨nofun, admits_singleton gives⟩

theorem gives_checkExprs {exprs : List Expr} (gives : Gives (scope.checkExprs exprs) ()) :
    scope.Admits exprs := by
  induction exprs with
  | nil => exact admits_nil
  | cons expr exprs inductionHypothesis =>
      rw [checkExprs] at gives
      obtain ⟨_, first, rest⟩ := gives.bind
      exact .cons first (inductionHypothesis rest)

theorem gives_checkFields {fields : List (String × Expr)}
    (gives : Gives (scope.checkFields fields) ()) : scope.Admits (fields.map (·.2)) := by
  induction fields with
  | nil => exact admits_nil
  | cons field fields inductionHypothesis =>
      rw [checkFields] at gives
      obtain ⟨_, first, rest⟩ := gives.bind
      exact .cons first (inductionHypothesis rest)

theorem gives_checkEntries {entries : List (Expr × Expr)}
    (gives : Gives (scope.checkEntries entries) ()) :
    scope.Admits (entries.flatMap fun entry => [entry.1, entry.2]) := by
  induction entries with
  | nil => exact admits_nil
  | cons entry entries inductionHypothesis =>
      rw [checkEntries] at gives
      obtain ⟨_, key, gives⟩ := gives.bind
      obtain ⟨_, value, rest⟩ := gives.bind
      exact .cons key (.cons value (inductionHypothesis rest))

/-- What is directly in a checked expression is checked. -/
theorem gives_operands {expr : Expr} (gives : Gives (scope.checkExpr expr) ()) :
    scope.Admits expr.operands := by
  cases expr with
  | lit _ | nil | var _ => exact admits_nil
  | field base _ | len base | cap base | reslice base _ _ | isNil base | deref base =>
      rw [checkExpr] at gives
      exact admits_singleton gives
  | addrOf place =>
      rw [checkExpr] at gives
      exact (gives_checkPlace gives).2
  | new init _ =>
      rw [checkExpr] at gives
      obtain ⟨_, -, gives⟩ := gives.bind
      exact admits_singleton gives
  | composite _ fields =>
      rw [checkExpr] at gives
      exact gives_checkFields gives
  | sliceLit elems _ =>
      rw [checkExpr] at gives
      obtain ⟨_, -, gives⟩ := gives.bind
      exact gives_checkExprs gives
  | makeSlice _ _ zero =>
      rw [checkExpr] at gives
      split at gives
      · exact absurd gives not_gives_refuse
      · exact admits_singleton gives
  | mapLit entries =>
      rw [checkExpr] at gives
      exact gives_checkEntries gives
  | index base index =>
      rw [checkExpr] at gives
      obtain ⟨_, first, second⟩ := gives.bind
      exact .cons first (admits_singleton second)
  | lookup base key default =>
      rw [checkExpr] at gives
      obtain ⟨_, first, gives⟩ := gives.bind
      obtain ⟨_, second, third⟩ := gives.bind
      exact .cons first (.cons second (admits_singleton third))
  | boxed _ value =>
      rw [checkExpr] at gives
      obtain ⟨_, -, gives⟩ := gives.bind
      exact admits_singleton gives
  | call _ args =>
      rw [checkExpr] at gives
      obtain ⟨_, -, gives⟩ := gives.bind
      exact gives_checkExprs gives

/-- What is in a checked expression at any depth is checked. -/
theorem Admits.parts {exprs : List Expr} (admits : scope.Admits exprs) :
    scope.Admits (exprs.flatMap Expr.parts) := by
  intro part member
  obtain ⟨whole, direct, inWhole⟩ := List.mem_flatMap.mp member
  have gives := admits whole direct
  have inside := Expr.mem_parts.mp inWhole
  clear direct inWhole member
  induction inside with
  | self => exact gives
  | operand direct _ inductionHypothesis =>
      exact inductionHypothesis (gives_operands gives _ direct)

/-- A checked expression uses only a name that may be used. -/
theorem sees_of_checkExpr {expr : Expr} (gives : Gives (scope.checkExpr expr) ()) {name : String}
    (found : expr.variable? = some name) : scope.Sees name := by
  cases expr with
  | var name =>
      cases found
      rw [checkExpr] at gives
      exact gives_checkName gives
  | addrOf place =>
      rw [checkExpr] at gives
      exact (gives_checkPlace gives).1 name found
  | _ => cases found

theorem gives_checkInit {decl : VarDecl} (gives : Gives (scope.checkInit decl) ()) :
    scope.Admits decl.parts := by
  rw [decl.parts_eq]
  apply Admits.parts
  cases initialised : decl.init with
  | none => exact admits_nil
  | some init =>
      rw [checkInit, initialised] at gives
      exact admits_singleton gives

/-- A checked statement starts from a name that may be used, and what is directly in it is
checked. -/
theorem gives_statement {function : FunctionDef} {stmt : Stmt} {locals : List String}
    (gives : Gives (scope.checkStmt function stmt) locals) :
    (∀ name, stmt.target? = some name → scope.Sees name) ∧ scope.Admits stmt.operands := by
  cases stmt with
  | declare decl =>
      obtain ⟨_, first, -⟩ := gives.bind
      refine ⟨by rintro _ ⟨⟩, ?_⟩
      rw [Stmt.operands]
      cases initialised : decl.init with
      | none => exact admits_nil
      | some init =>
          rw [checkInit, initialised] at first
          exact admits_singleton first
  | assign target value =>
      obtain ⟨_, first, gives⟩ := gives.bind
      obtain ⟨_, second, -⟩ := gives.bind
      refine ⟨?_, admits_singleton second⟩
      rintro _ ⟨⟩
      exact gives_checkName first
  | setField target name value =>
      obtain ⟨_, first, gives⟩ := gives.bind
      obtain ⟨_, second, -⟩ := gives.bind
      obtain ⟨root, inside⟩ := gives_checkPlace first
      exact ⟨root, inside.append (admits_singleton second)⟩
  | store pointer value =>
      obtain ⟨_, first, gives⟩ := gives.bind
      obtain ⟨_, second, -⟩ := gives.bind
      exact ⟨by rintro _ ⟨⟩, .cons first (admits_singleton second)⟩
  | setIndex target index value =>
      obtain ⟨_, first, gives⟩ := gives.bind
      obtain ⟨_, second, gives⟩ := gives.bind
      obtain ⟨_, third, -⟩ := gives.bind
      obtain ⟨root, inside⟩ := gives_checkPlace first
      exact ⟨root, inside.append (.cons second (admits_singleton third))⟩
  | setKey target key value =>
      obtain ⟨_, first, gives⟩ := gives.bind
      obtain ⟨_, second, gives⟩ := gives.bind
      obtain ⟨_, third, -⟩ := gives.bind
      obtain ⟨root, inside⟩ := gives_checkPlace first
      exact ⟨root, inside.append (.cons second (admits_singleton third))⟩
  | append target values =>
      obtain ⟨_, first, gives⟩ := gives.bind
      obtain ⟨_, second, -⟩ := gives.bind
      obtain ⟨root, inside⟩ := gives_checkPlace first
      exact ⟨root, inside.append (gives_checkExprs second)⟩
  | call callee args =>
      obtain ⟨_, -, gives⟩ := gives.bind
      obtain ⟨_, second, -⟩ := gives.bind
      exact ⟨by rintro _ ⟨⟩, gives_checkExprs second⟩
  | ret value =>
      obtain ⟨_, -, gives⟩ := gives.bind
      obtain ⟨_, second, -⟩ := gives.bind
      refine ⟨by rintro _ ⟨⟩, ?_⟩
      cases value with
      | none => exact admits_nil
      | some value => exact admits_singleton second

theorem admits_of_checkStmt {function : FunctionDef} {stmt : Stmt} {locals : List String}
    (gives : Gives (scope.checkStmt function stmt) locals) : scope.Admits stmt.parts := by
  rw [stmt.parts_eq]
  exact (gives_statement gives).2.parts

/-- A checked statement uses only names that may be used. -/
theorem sees_of_checkStmt {function : FunctionDef} {stmt : Stmt} {locals : List String}
    (gives : Gives (scope.checkStmt function stmt) locals) :
    ∀ name ∈ stmt.variables, scope.Sees name := by
  intro name mentioned
  rcases List.mem_append.mp mentioned with targeted | inside
  · exact (gives_statement gives).1 name (Option.mem_toList.mp targeted)
  · obtain ⟨part, member, found⟩ := List.mem_filterMap.mp inside
    exact sees_of_checkExpr (admits_of_checkStmt gives part member) found

end Scope

/-- Every statement of a checked body is checked. -/
theorem FunctionDef.admits_of_checkBody {function : FunctionDef} {functions : List FunctionDef}
    {globals : List String} {stmts : List Stmt} :
    ∀ {locals : List String} {index : Nat},
      Gives (function.checkBody functions globals locals index stmts) () →
        ∀ stmt ∈ stmts, ∃ scope : Scope, scope.Admits stmt.parts := by
  induction stmts with
  | nil => exact fun _ => List.forall_mem_nil _
  | cons first stmts inductionHypothesis =>
      intro locals index gives
      rw [checkBody] at gives
      obtain ⟨_, here, rest⟩ := gives.bind
      exact List.forall_mem_cons.mpr
        ⟨⟨_, Scope.admits_of_checkStmt here⟩, inductionHypothesis rest⟩

theorem FunctionDef.admits_of_check {function : FunctionDef} {functions : List FunctionDef}
    {globals : List String} (gives : Gives (function.check functions globals) ()) :
    ∀ stmt ∈ function.body, ∃ scope : Scope, scope.Admits stmt.parts := by
  obtain ⟨_, -, gives⟩ := gives.bind
  obtain ⟨_, body, -⟩ := gives.bind
  exact admits_of_checkBody body

theorem Program.admits_of_checkGlobals {functions : List FunctionDef} {decls : List VarDecl} :
    ∀ {names result : List String} {index : Nat},
      Gives (checkGlobals functions names index decls) result →
        ∀ decl ∈ decls, ∃ scope : Scope, scope.Admits decl.parts := by
  induction decls with
  | nil => exact fun _ => List.forall_mem_nil _
  | cons decl decls inductionHypothesis =>
      intro names result index gives
      rw [checkGlobals] at gives
      obtain ⟨_, here, gives⟩ := gives.bind
      obtain ⟨_, -, rest⟩ := gives.bind
      exact List.forall_mem_cons.mpr
        ⟨⟨_, Scope.gives_checkInit here⟩, inductionHypothesis rest⟩

/-! ### The functions called in a body -/

theorem FunctionDef.mem_callees_iff {function : FunctionDef} {callee : String} :
    callee ∈ function.callees ↔ ∃ stmt ∈ function.body, callee ∈ stmt.callees := by
  rw [callees, NameMap.mem_keys, NameMap.get?_ofList_map fun _ => (), ← List.mem_flatMap]
  by_cases called : callee ∈ function.body.flatMap Stmt.callees <;> simp [called]

theorem FunctionDef.mem_callees {function : FunctionDef} {stmt : Stmt} {callee : String}
    (member : stmt ∈ function.body) (called : callee ∈ stmt.callees) :
    callee ∈ function.callees := mem_callees_iff.mpr ⟨stmt, member, called⟩

end ReferenceSemantics

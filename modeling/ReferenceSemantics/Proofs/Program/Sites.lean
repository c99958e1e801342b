import ReferenceSemantics.Program.Parts
import ReferenceSemantics.Proofs.Program.Acceptance

set_option autoImplicit false

/-!
The allocation sites of a program.

A site belongs to a parameter, a named result, a local or a `new` expression at any depth. The check
of a program meets each of them once and refuses a site that it met before, so an accepted program
has no site twice.
-/

namespace ReferenceSemantics

/-! ### Expressions in other expressions -/

/-- The expressions directly in a place. -/
def Place.operands : Place → List Expr
  | .var _ => []
  | .field base _ => base.operands
  | .deref pointer => [pointer]

namespace Expr

/-- The expressions directly in an expression. -/
def operands : Expr → List Expr
  | .lit _ | .nil | .var _ => []
  | .field base _ | .len base | .cap base | .reslice base _ _ => [base]
  | .deref pointer => [pointer]
  | .addrOf place => place.operands
  | .new init _ => [init]
  | .composite _ fields => fields.map (·.2)
  | .sliceLit elems _ => elems
  | .makeSlice _ _ zero => [zero]
  | .mapLit entries => entries.flatMap fun entry => [entry.1, entry.2]
  | .index base position => [base, position]
  | .lookup base key default => [base, key, default]
  | .boxed _ value | .isNil value => [value]
  | .call _ args => args

/-- The first expression is the second one, or one in it at any depth. -/
inductive Inside : Expr → Expr → Prop
  | self (expr : Expr) : Inside expr expr
  | operand {part inner whole : Expr} (direct : inner ∈ whole.operands)
      (inside : Inside part inner) : Inside part whole

end Expr

theorem Place.parts_eq (place : Place) : place.parts = place.operands.flatMap Expr.parts := by
  cases place with
  | var _ => rw [parts, operands, List.flatMap_nil]
  | field base _ =>
      rw [parts, operands]
      exact parts_eq base
  | deref pointer => rw [parts, operands, List.flatMap_singleton]

theorem partsOfExprs_eq (exprs : List Expr) : partsOfExprs exprs = exprs.flatMap Expr.parts := by
  induction exprs with
  | nil => rfl
  | cons expr exprs inductionHypothesis =>
      rw [partsOfExprs, inductionHypothesis, List.flatMap_cons]

theorem partsOfFields_eq (fields : List (String × Expr)) :
    partsOfFields fields = (fields.map (·.2)).flatMap Expr.parts := by
  induction fields with
  | nil => rfl
  | cons field fields inductionHypothesis =>
      rw [partsOfFields, inductionHypothesis, List.map_cons, List.flatMap_cons]

theorem partsOfEntries_eq (entries : List (Expr × Expr)) :
    partsOfEntries entries =
      (entries.flatMap fun entry => [entry.1, entry.2]).flatMap Expr.parts := by
  induction entries with
  | nil => rfl
  | cons entry entries inductionHypothesis =>
      rw [partsOfEntries, inductionHypothesis]
      simp only [List.flatMap_cons, List.flatMap_append, List.flatMap_nil, List.append_nil]

theorem Expr.parts_eq (expr : Expr) :
    expr.parts = expr :: expr.operands.flatMap Expr.parts := by
  cases expr <;>
    simp only [parts, operands, Place.parts_eq, partsOfExprs_eq, partsOfFields_eq,
      partsOfEntries_eq, List.flatMap_cons, List.flatMap_nil, List.append_nil, List.append_assoc]

/-- The parts of an expression are the expressions in it. -/
theorem Expr.mem_parts {part whole : Expr} : part ∈ whole.parts ↔ part.Inside whole := by
  constructor
  · intro member
    induction size : whole.parts.length using Nat.strongRecOn generalizing whole with
    | ind size smaller =>
        subst size
        rw [parts_eq] at member
        rcases List.mem_cons.mp member with rfl | later
        · exact .self part
        · obtain ⟨inner, direct, inInner⟩ := List.mem_flatMap.mp later
          refine .operand direct (smaller _ ?_ inInner rfl)
          have within : inner.parts.length ≤ (whole.operands.flatMap Expr.parts).length :=
            (List.sublist_flatten_of_mem (List.mem_map_of_mem direct)).length_le
          rw [whole.parts_eq, List.length_cons]
          exact Nat.lt_succ_of_le within
  · intro inside
    induction inside with
    | self =>
        rw [parts_eq]
        exact List.mem_cons_self ..
    | operand direct _ inductionHypothesis =>
        rw [parts_eq]
        exact List.mem_cons_of_mem _ (List.mem_flatMap.mpr ⟨_, direct, inductionHypothesis⟩)

theorem Expr.Inside.trans {part inner whole : Expr} (inPart : part.Inside inner)
    (inWhole : inner.Inside whole) : part.Inside whole := by
  induction inWhole with
  | self => exact inPart
  | operand direct _ inductionHypothesis => exact .operand direct inductionHypothesis

theorem Expr.parts_subset {part whole : Expr} (member : part ∈ whole.parts) :
    part.parts ⊆ whole.parts :=
  fun _ inPart => mem_parts.mpr ((mem_parts.mp inPart).trans (mem_parts.mp member))

/-- The expressions directly in a statement, also in its places. -/
def Stmt.operands : Stmt → List Expr
  | .declare decl => decl.init.toList
  | .assign _ value => [value]
  | .setField target _ value => target.operands ++ [value]
  | .store pointer value => [pointer, value]
  | .setIndex target index value => target.operands ++ [index, value]
  | .setKey target key value => target.operands ++ [key, value]
  | .append target values => target.operands ++ values
  | .call _ args => args
  | .ret value => value.toList

theorem VarDecl.parts_eq (decl : VarDecl) :
    decl.parts = decl.init.toList.flatMap Expr.parts := by
  unfold parts
  cases decl.init with
  | none => rfl
  | some init => exact (List.flatMap_singleton ..).symm

theorem Stmt.parts_eq (stmt : Stmt) : stmt.parts = stmt.operands.flatMap Expr.parts := by
  cases stmt with
  | declare decl => exact decl.parts_eq
  | ret value =>
      cases value with
      | none => rfl
      | some value => exact (List.flatMap_singleton ..).symm
  | _ =>
      simp only [parts, operands, Place.parts_eq, partsOfExprs_eq, List.flatMap_append,
        List.flatMap_cons, List.flatMap_nil, List.append_nil, List.append_assoc]

theorem Stmt.parts_subset {part : Expr} {stmt : Stmt} (member : part ∈ stmt.parts) :
    part.parts ⊆ stmt.parts := by
  rw [parts_eq] at member ⊢
  obtain ⟨whole, direct, inWhole⟩ := List.mem_flatMap.mp member
  exact fun inner inPart =>
    List.mem_flatMap.mpr ⟨whole, direct, Expr.parts_subset inWhole inPart⟩

namespace Program

variable {program : Program} {site : SiteId}

/-- The expressions directly in the globals and the statements of a program. -/
def operands (program : Program) : List Expr :=
  program.globals.flatMap (·.init.toList)
    ++ program.functions.flatMap fun function => function.body.flatMap Stmt.operands

/-- Something in the program has the site. -/
inductive HasSite (program : Program) : SiteId → Prop
  | param {function : FunctionDef} {param : Param} (member : function ∈ program.functions)
      (inParams : param ∈ function.params) :
      HasSite program (defaultSite function.name param.name)
  | result {function : FunctionDef} {name : String} (member : function ∈ program.functions)
      (named : function.namedResult = some name) :
      HasSite program (defaultSite function.name name)
  | local {function : FunctionDef} {decl : VarDecl} (member : function ∈ program.functions)
      (declared : .declare decl ∈ function.body) : HasSite program (decl.siteId function.name)
  | new {whole init : Expr} {site : SiteId} (member : whole ∈ program.operands)
      (inside : Expr.Inside (.new init site) whole) : HasSite program site

theorem hasSite_new {part : Expr} (member : ∃ whole ∈ program.operands, part ∈ whole.parts)
    (creates : part.newSite? = some site) : program.HasSite site := by
  obtain ⟨whole, inProgram, inside⟩ := member
  cases part with
  | new init other =>
      cases creates
      exact .new inProgram (Expr.mem_parts.mp inside)
  | _ => cases creates

theorem hasSite_of_mem (member : site ∈ program.sites) : program.HasSite site := by
  rcases List.mem_append.mp member with inGlobals | inFunctions
  · obtain ⟨decl, isGlobal, inParts⟩ := List.mem_flatMap.mp inGlobals
    obtain ⟨part, inside, creates⟩ := List.mem_filterMap.mp inParts
    rw [decl.parts_eq] at inside
    obtain ⟨whole, initial, inWhole⟩ := List.mem_flatMap.mp inside
    refine hasSite_new ⟨whole, ?_, inWhole⟩ creates
    exact List.mem_append_left _ (List.mem_flatMap.mpr ⟨decl, isGlobal, initial⟩)
  · obtain ⟨function, isFunction, inFunction⟩ := List.mem_flatMap.mp inFunctions
    rcases List.mem_append.mp inFunction with inSlots | inBody
    · obtain ⟨name, isSlot, rfl⟩ := List.mem_map.mp inSlots
      rcases List.mem_append.mp isSlot with isParam | isResult
      · obtain ⟨param, inParams, rfl⟩ := List.mem_map.mp isParam
        exact .param isFunction inParams
      · exact .result isFunction (Option.mem_toList.mp isResult)
    · obtain ⟨stmt, inStmts, inStmt⟩ := List.mem_flatMap.mp inBody
      rcases List.mem_append.mp inStmt with isLocal | inParts
      · obtain ⟨decl, declared, rfl⟩ := Option.map_eq_some_iff.mp (Option.mem_toList.mp isLocal)
        cases stmt with
        | declare other =>
            cases declared
            exact .local isFunction inStmts
        | _ => cases declared
      · obtain ⟨part, inside, creates⟩ := List.mem_filterMap.mp inParts
        rw [stmt.parts_eq] at inside
        obtain ⟨whole, direct, inWhole⟩ := List.mem_flatMap.mp inside
        refine hasSite_new ⟨whole, ?_, inWhole⟩ creates
        apply List.mem_append_right
        apply List.mem_flatMap.mpr
        exact ⟨function, isFunction, List.mem_flatMap.mpr ⟨stmt, inStmts, direct⟩⟩

theorem mem_of_hasSite (hasSite : program.HasSite site) : site ∈ program.sites := by
  cases hasSite with
  | @param function param member inParams =>
      apply List.mem_append_right
      refine List.mem_flatMap.mpr ⟨function, member, List.mem_append_left _ ?_⟩
      apply List.mem_map_of_mem
      exact List.mem_append_left _ (List.mem_map_of_mem inParams)
  | @result function name member named =>
      apply List.mem_append_right
      refine List.mem_flatMap.mpr ⟨function, member, List.mem_append_left _ ?_⟩
      apply List.mem_map_of_mem
      exact List.mem_append_right _ (Option.mem_toList.mpr named)
  | @«local» function decl member declared =>
      apply List.mem_append_right
      refine List.mem_flatMap.mpr ⟨function, member, List.mem_append_right _ ?_⟩
      exact List.mem_flatMap.mpr ⟨_, declared, List.mem_append_left _ (List.mem_singleton.mpr rfl)⟩
  | @new whole init _ member inside =>
      have creates := Expr.mem_parts.mpr inside
      rcases List.mem_append.mp member with inGlobals | inFunctions
      · obtain ⟨decl, isGlobal, initial⟩ := List.mem_flatMap.mp inGlobals
        refine List.mem_append_left _ (List.mem_flatMap.mpr ⟨decl, isGlobal, ?_⟩)
        refine List.mem_filterMap.mpr ⟨.new init _, ?_, rfl⟩
        rw [decl.parts_eq]
        exact List.mem_flatMap.mpr ⟨whole, initial, creates⟩
      · obtain ⟨function, isFunction, inBody⟩ := List.mem_flatMap.mp inFunctions
        obtain ⟨stmt, inStmts, direct⟩ := List.mem_flatMap.mp inBody
        apply List.mem_append_right
        refine List.mem_flatMap.mpr ⟨function, isFunction, List.mem_append_right _ ?_⟩
        refine List.mem_flatMap.mpr ⟨stmt, inStmts, List.mem_append_right _ ?_⟩
        refine List.mem_filterMap.mpr ⟨.new init _, ?_, rfl⟩
        rw [stmt.parts_eq]
        exact List.mem_flatMap.mpr ⟨whole, direct, creates⟩

/-- The sites of a program are those of its parameters, results, locals and `new` expressions. -/
theorem mem_sites : site ∈ program.sites ↔ program.HasSite site := ⟨hasSite_of_mem, mem_of_hasSite⟩

end Program

/-! ### The check claims every site once -/

namespace Check

variable {α β : Type}

/-- The check claims these sites, each for the first time. -/
def Claims (check : Check α) (sites : List SiteId) : Prop :=
  ∀ (before : List SiteId) (result : α) (after : List SiteId),
    check.run before = .ok (result, after) → before.Nodup →
      after.Nodup ∧ after.Perm (sites ++ before)

namespace Claims

variable {first : Check α} {next : α → Check β} {sites more : List SiteId}

theorem pure (value : α) : Claims (pure value) [] := by
  rintro before _ _ ⟨⟩ nodup
  exact ⟨nodup, .refl _⟩

theorem refuse (error : WellFormednessError) : Claims (refuse error : Check α) sites := by
  rintro before _ _ ⟨⟩

theorem bind (start : Claims first sites) (rest : ∀ value, Claims (next value) more) :
    Claims (first >>= next) (sites ++ more) := by
  intro before result after ran nodup
  rw [StateT.run_bind] at ran
  cases started : first.run before with
  | error error =>
      rw [started] at ran
      cases ran
  | ok reached =>
      rw [started] at ran
      obtain ⟨nodup, here⟩ := start _ _ _ started nodup
      obtain ⟨nodup, later⟩ := rest _ _ _ _ ran nodup
      refine ⟨nodup, later.trans ((here.append_left more).trans ?_)⟩
      rw [← List.append_assoc]
      exact List.perm_append_comm.append_right before

theorem before (start : Claims first sites) (rest : ∀ value, Claims (next value) []) :
    Claims (first >>= next) sites :=
  List.append_nil sites ▸ start.bind rest

theorem perm (claims : Claims first sites) (same : sites.Perm more) : Claims first more := by
  intro before result after ran nodup
  obtain ⟨nodup, here⟩ := claims _ _ _ ran nodup
  exact ⟨nodup, here.trans (same.append_right before)⟩

theorem claim (site : SiteId) : Claims (claim site) [site] := by
  intro before result after ran nodup
  unfold Check.claim at ran
  rw [StateT.run_bind] at ran
  change StateT.run (if before.contains site = true then Check.refuse (.duplicateSite site)
    else modify (site :: ·)) before = _ at ran
  split at ran
  next => cases ran
  next fresh =>
    cases ran
    exact ⟨List.nodup_cons.mpr ⟨by simpa using fresh, nodup⟩, .refl _⟩

theorem declare (names : List String) (name function : String) :
    Claims (declare names name function) [] := by
  unfold Check.declare
  split
  · exact .refuse _
  · exact .pure _

theorem forM {items : List α} {check : α → Check Unit} {sitesOf : α → List SiteId}
    (each : ∀ item ∈ items, Claims (check item) (sitesOf item)) :
    Claims (items.forM check) (items.flatMap sitesOf) := by
  induction items with
  | nil => exact Claims.pure ()
  | cons item items inductionHypothesis =>
      obtain ⟨here, rest⟩ := List.forall_mem_cons.mp each
      rw [List.flatMap_cons]
      exact Claims.bind here fun _ => inductionHypothesis rest

end Claims

end Check

namespace Scope

open Check

variable {scope : Scope}

theorem checkName_claims (name : String) : Claims (scope.checkName name) [] := by
  unfold checkName
  split
  · exact .pure ()
  · exact .refuse _

theorem checkCall_claims (callee : String) (count : Nat) :
    Claims (scope.checkCall callee count) [] := by
  unfold checkCall
  split
  · exact .refuse _
  · split
    · exact .pure ()
    · exact .refuse _

theorem checkSlice_claims (length capacity : Nat) :
    Claims (scope.checkSlice length capacity) [] := by
  unfold checkSlice
  split
  · exact .refuse _
  · split
    · exact .refuse _
    · exact .pure ()

theorem checkBox_claims (typeTag : Option String) (value : Expr) :
    Claims (scope.checkBox typeTag value) [] := by
  unfold checkBox
  split
  · exact .pure ()
  · exact .pure ()
  · exact .refuse _

mutual

theorem checkPlace_claims : ∀ place : Place,
    Claims (scope.checkPlace place) (place.parts.filterMap Expr.newSite?)
  | .var name => by
      rw [checkPlace, Place.parts]
      exact checkName_claims name
  | .field base _ => by
      rw [checkPlace, Place.parts]
      exact checkPlace_claims base
  | .deref pointer => by
      rw [checkPlace, Place.parts]
      exact checkExpr_claims pointer

theorem checkExpr_claims : ∀ expr : Expr,
    Claims (scope.checkExpr expr) (expr.parts.filterMap Expr.newSite?)
  | .lit _ | .nil => by
      rw [checkExpr, Expr.parts]
      exact .pure ()
  | .var name => by
      rw [checkExpr, Expr.parts]
      exact checkName_claims name
  | .field base _ | .len base | .cap base | .reslice base _ _ | .isNil base | .deref base => by
      rw [checkExpr, Expr.parts]
      exact checkExpr_claims base
  | .addrOf place => by
      rw [checkExpr, Expr.parts]
      exact checkPlace_claims place
  | .new init site => by
      rw [checkExpr, Expr.parts]
      exact (Claims.claim site).bind fun _ => checkExpr_claims init
  | .composite _ fields => by
      rw [checkExpr, Expr.parts]
      exact checkFields_claims fields
  | .sliceLit elems _ => by
      rw [checkExpr, Expr.parts]
      exact (checkSlice_claims _ _).bind fun _ => checkExprs_claims elems
  | .makeSlice _ _ zero => by
      rw [checkExpr, Expr.parts]
      split
      · exact .refuse _
      · exact checkExpr_claims zero
  | .mapLit entries => by
      rw [checkExpr, Expr.parts]
      exact checkEntries_claims entries
  | .index base position => by
      rw [checkExpr, Expr.parts, List.filterMap_cons_none rfl, List.filterMap_append]
      exact (checkExpr_claims base).bind fun _ => checkExpr_claims position
  | .lookup base key default => by
      rw [checkExpr, Expr.parts, List.filterMap_cons_none rfl, List.filterMap_append,
        List.filterMap_append, List.append_assoc]
      refine (checkExpr_claims base).bind fun _ => ?_
      exact (checkExpr_claims key).bind fun _ => checkExpr_claims default
  | .boxed typeTag value => by
      rw [checkExpr, Expr.parts]
      exact (checkBox_claims typeTag value).bind fun _ => checkExpr_claims value
  | .call callee args => by
      rw [checkExpr, Expr.parts]
      exact (checkCall_claims callee args.length).bind fun _ => checkExprs_claims args

theorem checkExprs_claims : ∀ exprs : List Expr,
    Claims (scope.checkExprs exprs) ((partsOfExprs exprs).filterMap Expr.newSite?)
  | [] => by
      rw [checkExprs, partsOfExprs]
      exact .pure ()
  | expr :: exprs => by
      rw [checkExprs, partsOfExprs, List.filterMap_append]
      exact (checkExpr_claims expr).bind fun _ => checkExprs_claims exprs

theorem checkFields_claims : ∀ fields : List (String × Expr),
    Claims (scope.checkFields fields) ((partsOfFields fields).filterMap Expr.newSite?)
  | [] => by
      rw [checkFields, partsOfFields]
      exact .pure ()
  | (_, value) :: fields => by
      rw [checkFields, partsOfFields, List.filterMap_append]
      exact (checkExpr_claims value).bind fun _ => checkFields_claims fields

theorem checkEntries_claims : ∀ entries : List (Expr × Expr),
    Claims (scope.checkEntries entries) ((partsOfEntries entries).filterMap Expr.newSite?)
  | [] => by
      rw [checkEntries, partsOfEntries]
      exact .pure ()
  | (key, value) :: entries => by
      rw [checkEntries, partsOfEntries, List.filterMap_append, List.filterMap_append,
        List.append_assoc]
      refine (checkExpr_claims key).bind fun _ => ?_
      exact (checkExpr_claims value).bind fun _ => checkEntries_claims entries

end

theorem checkInit_claims (decl : VarDecl) :
    Claims (scope.checkInit decl) (decl.parts.filterMap Expr.newSite?) := by
  unfold checkInit VarDecl.parts
  cases decl.init with
  | none => exact .pure ()
  | some init => exact checkExpr_claims init

theorem checkReturn_claims (function : FunctionDef) (value : Option Expr) :
    Claims (scope.checkReturn function value) [] := by
  unfold checkReturn
  split
  · exact .refuse _
  · exact .refuse _
  · exact .pure ()

/-- A check that claims some sites, and then gives the names in scope. -/
theorem claims_then {check : Check Unit} {sites : List SiteId} (claims : Claims check sites)
    (names : List String) : Claims (check >>= fun _ => pure names) sites :=
  claims.before fun _ => .pure names

theorem checkStmt_claims (function : FunctionDef) (stmt : Stmt) :
    Claims (scope.checkStmt function stmt) (stmt.sites function.name) := by
  unfold checkStmt Stmt.sites Stmt.parts Stmt.declared?
  cases stmt with
  | declare decl =>
      refine Claims.perm ?_ (@List.perm_append_comm _ (decl.parts.filterMap Expr.newSite?) _)
      refine (checkInit_claims decl).bind fun _ => ?_
      refine (Claims.declare scope.locals decl.name function.name).bind fun locals => ?_
      exact claims_then (.claim (decl.siteId function.name)) locals
  | assign target value =>
      exact (checkName_claims target).bind fun _ => claims_then (checkExpr_claims value) _
  | setField target name value =>
      dsimp only
      rw [List.filterMap_append]
      exact (checkPlace_claims target).bind fun _ => claims_then (checkExpr_claims value) _
  | store pointer value =>
      dsimp only
      rw [List.filterMap_append]
      exact (checkExpr_claims pointer).bind fun _ => claims_then (checkExpr_claims value) _
  | setIndex target index value =>
      dsimp only
      rw [List.filterMap_append, List.filterMap_append, List.append_assoc]
      refine (checkPlace_claims target).bind fun _ => ?_
      exact (checkExpr_claims index).bind fun _ => claims_then (checkExpr_claims value) _
  | setKey target key value =>
      dsimp only
      rw [List.filterMap_append, List.filterMap_append, List.append_assoc]
      refine (checkPlace_claims target).bind fun _ => ?_
      exact (checkExpr_claims key).bind fun _ => claims_then (checkExpr_claims value) _
  | append target values =>
      dsimp only
      rw [List.filterMap_append]
      exact (checkPlace_claims target).bind fun _ => claims_then (checkExprs_claims values) _
  | call callee args =>
      exact (checkCall_claims callee args.length).bind fun _ => claims_then (checkExprs_claims args) _
  | ret value =>
      refine (checkReturn_claims function value).bind fun _ => claims_then ?_ _
      cases value with
      | none => exact .pure ()
      | some value => exact checkExpr_claims value

end Scope

namespace FunctionDef

open Check

variable {function : FunctionDef} {functions : List FunctionDef} {globals : List String}

theorem checkSlots_claims (names : List String) : ∀ locals : List String,
    Claims (function.checkSlots locals names) (names.map (defaultSite function.name)) := by
  induction names with
  | nil =>
      intro locals
      rw [checkSlots]
      exact .pure locals
  | cons name names inductionHypothesis =>
      intro locals
      rw [checkSlots, List.map_cons]
      refine (Claims.declare locals name function.name).bind fun locals => ?_
      exact (Claims.claim (defaultSite function.name name)).bind fun _ => inductionHypothesis locals

theorem checkBody_claims (stmts : List Stmt) : ∀ (locals : List String) (index : Nat),
    Claims (function.checkBody functions globals locals index stmts)
      (stmts.flatMap (Stmt.sites function.name)) := by
  induction stmts with
  | nil =>
      intro locals index
      rw [checkBody]
      exact .pure ()
  | cons stmt stmts inductionHypothesis =>
      intro locals index
      rw [checkBody, List.flatMap_cons]
      exact (Scope.checkStmt_claims function stmt).bind fun locals =>
        inductionHypothesis locals (index + 1)

theorem check_claims (function : FunctionDef) :
    Claims (function.check functions globals) function.sites := by
  have finish : Claims function.checkEnd [] := by
    unfold checkEnd
    split
    · split
      · exact .pure ()
      · exact .refuse _
    · exact .pure ()
  have body (locals : List String) :
      Claims (function.checkBody functions globals locals 0 function.body >>= fun _ =>
        function.checkEnd) (function.body.flatMap (Stmt.sites function.name)) :=
    (checkBody_claims function.body locals 0).before fun _ => finish
  exact (checkSlots_claims function.slotNames []).bind body

end FunctionDef

namespace Program

open Check

theorem checkGlobals_claims {functions : List FunctionDef} (decls : List VarDecl) :
    ∀ (names : List String) (index : Nat), Claims (checkGlobals functions names index decls)
      (decls.flatMap fun decl => decl.parts.filterMap Expr.newSite?) := by
  induction decls with
  | nil =>
      intro names index
      rw [checkGlobals]
      exact .pure names
  | cons decl decls inductionHypothesis =>
      intro names index
      rw [checkGlobals, List.flatMap_cons]
      refine (Scope.checkInit_claims decl).bind fun _ => ?_
      exact (Claims.declare names decl.name globalsFrame).bind fun names =>
        inductionHypothesis names (index + 1)

theorem checkDefinitions_claims (program : Program) :
    Claims program.checkDefinitions program.sites :=
  (checkGlobals_claims program.globals [] 0).bind fun _ =>
    Claims.forM fun function _ => function.check_claims

theorem Resolved.nodup_sites {program : Program} {entry : String}
    (resolved : program.Resolved entry) : program.sites.Nodup := by
  obtain ⟨claimed, defined⟩ := resolved.definitions
  obtain ⟨nodup, same⟩ := program.checkDefinitions_claims _ _ _ defined .nil
  rw [List.append_nil] at same
  exact same.nodup_iff.mp nodup

/-- No two things in an accepted program have the same site. -/
theorem nodup_sites {program : Program} {entry : String}
    (checked : program.check entry = .ok ()) : program.sites.Nodup :=
  (resolved_of_check checked).1.nodup_sites

end Program

end ReferenceSemantics

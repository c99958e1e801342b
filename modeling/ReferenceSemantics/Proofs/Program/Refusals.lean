import Mathlib.Data.List.Duplicate
import ReferenceSemantics.Proofs.Program.Mentions

set_option autoImplicit false

/-!
What a refused program has done wrong.

The check stops at the first rule that it finds broken. Its error names a defect that is there: a
mention of a variable that is not visible, a call that fits no definition, a name or a site met
twice, and so on. Expressions stand in passages, which are the statements and the initialisers of
globals, and most defects are defects of a passage.
-/

namespace ReferenceSemantics

/-! ### Passages -/

/-- A statement or the initialiser of a global. -/
structure Passage where
  location : Location
  /-- The variable it assigns, or that its place starts from. -/
  target : Option String
  /-- The expressions in it, at any depth. -/
  parts : List Expr
  /-- The variables that it may mention. -/
  visible : List String

/-- The variables that a passage mentions. -/
def Passage.variables (passage : Passage) : List String :=
  passage.target.toList ++ passage.parts.filterMap Expr.variable?

/-- The expressions in a statement; a call that is a statement is one of them. -/
def Stmt.expressions : Stmt → List Expr
  | call callee args => (Expr.call callee args).parts
  | stmt => stmt.parts

theorem Stmt.parts_subset_expressions {stmt : Stmt} : stmt.parts ⊆ stmt.expressions := by
  cases stmt with
  | call callee args =>
      rw [Stmt.expressions, Expr.parts]
      exact List.subset_cons_self _ _
  | _ => exact List.Subset.refl _

/-- The names that the statements of a body declare. -/
def declaredIn (body : List Stmt) : List String := (body.filterMap Stmt.declared?).map (·.name)

/-- The names of the parameters, the named result and the locals. -/
def FunctionDef.declaredNames (function : FunctionDef) : List String :=
  function.slotNames ++ declaredIn function.body

/-- An initialiser may mention the globals before it. -/
def VarDecl.passage (decl : VarDecl) (earlier : List VarDecl) : Passage where
  location := ⟨globalsFrame, earlier.length⟩
  target := none
  parts := decl.parts
  visible := earlier.map (·.name)

/-- A statement may mention parameters, the named result, the locals before it and any global. -/
def Stmt.passage (stmt : Stmt) (program : Program) (function : FunctionDef)
    (earlier : List Stmt) : Passage where
  location := ⟨function.name, earlier.length⟩
  target := stmt.target?
  parts := stmt.expressions
  visible := function.slotNames ++ declaredIn earlier ++ program.globals.map (·.name)

/-- The passages of a program. -/
inductive Program.Contains (program : Program) : Passage → Prop
  | initialiser {earlier later : List VarDecl} {decl : VarDecl}
      (standing : program.globals = earlier ++ decl :: later) :
      Contains program (decl.passage earlier)
  | statement {function : FunctionDef} {earlier later : List Stmt} {stmt : Stmt}
      (member : function ∈ program.functions)
      (standing : function.body = earlier ++ stmt :: later) :
      Contains program (stmt.passage program function earlier)

/-! ### Defects -/

/-- What may be wrong in a passage, and the error that says so. -/
inductive Passage.Defect (functions : List FunctionDef) (passage : Passage) :
    WellFormednessError → Prop
  | unknownVariable {name : String} (mentioned : name ∈ passage.variables)
      (invisible : name ∉ passage.visible) :
      Defect functions passage (.unknownVariable name passage.location)
  | unknownFunction {callee : String} {args : List Expr}
      (called : .call callee args ∈ passage.parts) (undefined : callee ∉ functions.map (·.name)) :
      Defect functions passage (.unknownFunction callee passage.location)
  | arityMismatch {function : FunctionDef} {args : List Expr}
      (called : .call function.name args ∈ passage.parts) (member : function ∈ functions)
      (differs : function.params.length ≠ args.length) :
      Defect functions passage
        (.arityMismatch function.name function.params.length args.length passage.location)
  | capacityBelowLength {elems : List Expr} {capacity : Option Nat}
      (built : .sliceLit elems capacity ∈ passage.parts)
      (below : capacity.getD elems.length < elems.length) :
      Defect functions passage
        (.invalidSlice (.capacityBelowLength (capacity.getD elems.length) elems.length)
          passage.location)
  | spareWithoutElement {capacity : Option Nat} (built : .sliceLit [] capacity ∈ passage.parts)
      (spare : 0 < capacity.getD 0) :
      Defect functions passage (.invalidSlice .spareWithoutElement passage.location)
  | lengthAboveCapacity {len cap : Nat} {zero : Expr}
      (made : .makeSlice len cap zero ∈ passage.parts) (above : cap < len) :
      Defect functions passage (.invalidSlice (.lengthAboveCapacity len cap) passage.location)
  | untypedBox {value : Expr} (held : .boxed none value ∈ passage.parts) (notNil : value ≠ .nil) :
      Defect functions passage (.untypedBox passage.location)

namespace FunctionDef

/-- The result has no name, so it has no slot. -/
def ResultUnnamed (function : FunctionDef) : Prop := ∃ kind, function.result = some ⟨none, kind⟩

/-- A value is returned only where a result is declared, and always where it has no name. -/
def MayReturn (function : FunctionDef) (value : Option Expr) : Prop :=
  (value.isSome → function.result.isSome) ∧ (function.ResultUnnamed → value.isSome)

/-- The last statement returns a value. -/
def EndsWithValue (function : FunctionDef) : Prop :=
  ∃ value, function.body.getLast? = some (.ret (some value))

end FunctionDef

/-- What may be wrong in a program, and the error that says so. -/
inductive Program.Defect (program : Program) (entry : String) : WellFormednessError → Prop
  | duplicateFunction {name : String}
      (repeated : List.Duplicate name (program.functions.map (·.name))) :
      Defect program entry (.duplicateFunction name)
  | missingEntry (missing : entry ∉ program.functions.map (·.name)) :
      Defect program entry (.missingEntry entry)
  | entryTakesParameters {function : FunctionDef} (member : function ∈ program.functions)
      (named : function.name = entry) (takes : function.params ≠ []) :
      Defect program entry (.entryTakesParameters entry)
  | passage {passage : Passage} {error : WellFormednessError} (contains : program.Contains passage)
      (defect : passage.Defect program.functions error) : Defect program entry error
  | duplicateGlobal {name : String}
      (repeated : List.Duplicate name (program.globals.map (·.name))) :
      Defect program entry (.duplicateVariable name globalsFrame)
  | duplicateLocal {function : FunctionDef} {name : String} (member : function ∈ program.functions)
      (repeated : List.Duplicate name function.declaredNames) :
      Defect program entry (.duplicateVariable name function.name)
  | duplicateSite {site : SiteId} (repeated : List.Duplicate site program.sites) :
      Defect program entry (.duplicateSite site)
  | resultMismatch {function : FunctionDef} {earlier later : List Stmt} {value : Option Expr}
      (member : function ∈ program.functions)
      (standing : function.body = earlier ++ .ret value :: later)
      (differs : ¬ function.MayReturn value) :
      Defect program entry (.resultMismatch function.name ⟨function.name, earlier.length⟩)
  | missingReturn {function : FunctionDef} (member : function ∈ program.functions)
      (unnamed : function.ResultUnnamed) (openEnded : ¬ function.EndsWithValue) :
      Defect program entry (.missingReturn function.name)

/-! ### Refusing for a reason -/

namespace Check

variable {α β : Type}

/-- The check refuses only for one of the faults, or because it claims a site twice. -/
def Refuses (check : Check α) (sites : List SiteId) (Fault : WellFormednessError → Prop) : Prop :=
  ∀ (before : List SiteId) (error : WellFormednessError), check.run before = .error error →
    before.Nodup →
      Fault error ∨ ∃ site, error = .duplicateSite site ∧ List.Duplicate site (sites ++ before)

theorem Claims.run {check : Check α} {sites before after : List SiteId} {result : α}
    (claims : Claims check sites) (ran : check.run before = .ok (result, after))
    (nodup : before.Nodup) : after.Nodup ∧ after.Perm (sites ++ before) :=
  claims before result after ran nodup

namespace Refuses

variable {first : Check α} {next : α → Check β} {sites more : List SiteId}
  {Fault Wider : WellFormednessError → Prop}

theorem pure (value : α) : Refuses (pure value) sites Fault := by
  rintro before error ⟨⟩

theorem refuse {error : WellFormednessError} (fault : Fault error) :
    Refuses (refuse error : Check α) sites Fault := by
  rintro before _ ⟨⟩ _
  exact .inl fault

theorem weaken (refuses : Refuses first sites Fault) (wider : ∀ error, Fault error → Wider error) :
    Refuses first sites Wider :=
  fun before error ran nodup => (refuses before error ran nodup).imp_left (wider error)

theorem perm (refuses : Refuses first sites Fault) (same : sites.Perm more) :
    Refuses first more Fault := by
  intro before error ran nodup
  refine (refuses before error ran nodup).imp_right ?_
  rintro ⟨site, rfl, repeated⟩
  refine ⟨site, rfl, ?_⟩
  rw [List.duplicate_iff_two_le_count] at repeated ⊢
  rwa [← (same.append_right before).count_eq]

/-- What is claimed first counts for what comes after. -/
theorem bind (claims : Claims first sites) (start : Refuses first sites Fault)
    (rest : ∀ value, Gives first value → Refuses (next value) more Fault) :
    Refuses (first >>= next) (sites ++ more) Fault := by
  intro before error ran nodup
  rw [StateT.run_bind] at ran
  cases started : first.run before with
  | error early =>
      rw [started] at ran
      cases ran
      refine (start before error started nodup).imp_right ?_
      rintro ⟨site, rfl, repeated⟩
      refine ⟨site, rfl, repeated.mono_sublist ?_⟩
      exact (List.sublist_append_left sites more).append (List.Sublist.refl before)
  | ok reached =>
      rw [started] at ran
      obtain ⟨distinct, claimed⟩ := claims.run started nodup
      have later := rest reached.1 ⟨before, reached.2, started⟩ reached.2 error ran distinct
      refine later.imp_right ?_
      rintro ⟨site, rfl, repeated⟩
      refine ⟨site, rfl, ?_⟩
      rw [List.duplicate_iff_two_le_count] at repeated ⊢
      have counted := claimed.count_eq site
      simp only [List.count_append] at repeated counted ⊢
      omega

/-- A check that claims nothing comes last. -/
theorem before (claims : Claims first sites) (start : Refuses first sites Fault)
    (rest : ∀ value, Gives first value → Refuses (next value) [] Fault) :
    Refuses (first >>= next) sites Fault :=
  List.append_nil sites ▸ start.bind claims rest

theorem claim (site : SiteId) : Refuses (claim site) [site] Fault := by
  intro before error ran _
  unfold Check.claim at ran
  rw [StateT.run_bind] at ran
  change StateT.run (if before.contains site = true then Check.refuse (.duplicateSite site)
    else modify (site :: ·)) before = _ at ran
  split at ran
  next known =>
    cases ran
    exact .inr ⟨site, rfl, List.Mem.duplicate_cons_self (by simpa using known)⟩
  next => cases ran

theorem declare {names : List String} {name function : String}
    (fault : name ∈ names → Fault (.duplicateVariable name function)) :
    Refuses (declare names name function) [] Fault := by
  unfold Check.declare
  split
  next known => exact .refuse (fault (by simpa using known))
  next => exact .pure _

theorem forM {items : List α} {check : α → Check Unit} {sitesOf : α → List SiteId}
    (claims : ∀ item ∈ items, Claims (check item) (sitesOf item))
    (each : ∀ item ∈ items, Refuses (check item) (sitesOf item) Fault) :
    Refuses (items.forM check) (items.flatMap sitesOf) Fault := by
  induction items with
  | nil => exact Refuses.pure ()
  | cons item items inductionHypothesis =>
      obtain ⟨claimed, claims⟩ := List.forall_mem_cons.mp claims
      obtain ⟨here, rest⟩ := List.forall_mem_cons.mp each
      rw [List.flatMap_cons]
      exact Refuses.bind claimed here fun _ _ => inductionHypothesis claims rest

end Refuses

end Check

/-! ### Refused expressions -/

namespace Scope

open Check

variable {scope : Scope} {passage : Passage}

/-- The scope is that of the passage. -/
structure Reads (scope : Scope) (passage : Passage) : Prop where
  location : passage.location = scope.location
  visible : ∀ name, name ∈ passage.visible ↔ scope.Sees name

/-- An error for a defect of the passage. -/
abbrev Fault (scope : Scope) (passage : Passage) : WellFormednessError → Prop :=
  passage.Defect scope.functions

theorem checkName_refuses (reads : scope.Reads passage) {name : String}
    (mentioned : name ∈ passage.variables) :
    Refuses (scope.checkName name) [] (scope.Fault passage) := by
  unfold checkName
  split
  next => exact .pure ()
  next unseen =>
    refine .refuse (reads.location ▸ .unknownVariable mentioned ?_)
    rw [reads.visible]
    simpa [Sees] using unseen

theorem checkCall_refuses (reads : scope.Reads passage) {callee : String} {args : List Expr}
    (called : .call callee args ∈ passage.parts) :
    Refuses (scope.checkCall callee args.length) [] (scope.Fault passage) := by
  unfold checkCall
  split
  next missing =>
    refine .refuse (reads.location ▸ .unknownFunction called ?_)
    rintro member
    obtain ⟨function, inFunctions, named⟩ := List.mem_map.mp member
    have absent := List.find?_eq_none.mp missing function inFunctions
    exact absent (by simpa using named)
  next function found =>
    split
    next => exact .pure ()
    next differs =>
      obtain rfl : function.name = callee := by simpa using List.find?_some found
      have member := List.mem_of_find?_eq_some found
      exact .refuse (reads.location ▸ .arityMismatch called member differs)

theorem checkSlice_refuses (reads : scope.Reads passage) {elems : List Expr}
    {capacity : Option Nat} (built : .sliceLit elems capacity ∈ passage.parts) :
    Refuses (scope.checkSlice elems.length (capacity.getD elems.length)) []
      (scope.Fault passage) := by
  unfold checkSlice
  split
  next below => exact .refuse (reads.location ▸ .capacityBelowLength built below)
  next =>
    split
    next spare =>
      obtain rfl := List.eq_nil_of_length_eq_zero spare.2
      exact .refuse (reads.location ▸ .spareWithoutElement built spare.1)
    next => exact .pure ()

theorem checkBox_refuses (reads : scope.Reads passage) {typeTag : Option String} {value : Expr}
    (held : .boxed typeTag value ∈ passage.parts) :
    Refuses (scope.checkBox typeTag value) [] (scope.Fault passage) := by
  unfold checkBox
  split
  next => exact .pure ()
  next => exact .pure ()
  next notNil => exact .refuse (reads.location ▸ .untypedBox held notNil)

/-- A variable that an expression of the passage names is mentioned there. -/
theorem mem_variables {expr : Expr} (member : expr ∈ passage.parts) {name : String}
    (found : expr.variable? = some name) : name ∈ passage.variables :=
  List.mem_append_right _ (List.mem_filterMap.mpr ⟨expr, member, found⟩)

mutual

theorem checkPlace_refuses (reads : scope.Reads passage) : ∀ place : Place,
    (∀ name, place.rootVar = some name → name ∈ passage.variables) →
      place.parts ⊆ passage.parts →
        Refuses (scope.checkPlace place) (place.parts.filterMap Expr.newSite?)
          (scope.Fault passage)
  | .var name, root, _ => by
      rw [checkPlace, Place.parts]
      exact checkName_refuses reads (root name rfl)
  | .field base _, root, inside => by
      rw [checkPlace, Place.parts]
      rw [Place.parts] at inside
      exact checkPlace_refuses reads base root inside
  | .deref pointer, _, inside => by
      rw [checkPlace, Place.parts]
      rw [Place.parts] at inside
      exact checkExpr_refuses reads pointer inside

theorem checkExpr_refuses (reads : scope.Reads passage) : ∀ expr : Expr,
    expr.parts ⊆ passage.parts →
      Refuses (scope.checkExpr expr) (expr.parts.filterMap Expr.newSite?) (scope.Fault passage)
  | .lit _, _ | .nil, _ => by
      rw [checkExpr]
      exact .pure ()
  | .var name, inside => by
      rw [checkExpr, Expr.parts]
      rw [Expr.parts] at inside
      exact checkName_refuses reads (mem_variables (inside (List.mem_cons_self ..)) rfl)
  | .field base _, inside | .len base, inside | .cap base, inside | .reslice base _ _, inside
  | .isNil base, inside | .deref base, inside => by
      rw [checkExpr, Expr.parts]
      rw [Expr.parts, List.cons_subset] at inside
      exact checkExpr_refuses reads base inside.2
  | .addrOf place, inside => by
      rw [checkExpr, Expr.parts]
      rw [Expr.parts, List.cons_subset] at inside
      exact checkPlace_refuses reads place (fun name => mem_variables inside.1) inside.2
  | .new init site, inside => by
      rw [checkExpr, Expr.parts]
      rw [Expr.parts, List.cons_subset] at inside
      exact (Refuses.claim site).bind (.claim site) fun _ _ => checkExpr_refuses reads init inside.2
  | .composite _ fields, inside => by
      rw [checkExpr, Expr.parts]
      rw [Expr.parts, List.cons_subset] at inside
      exact checkFields_refuses reads fields inside.2
  | .sliceLit elems capacity, inside => by
      rw [checkExpr, Expr.parts]
      rw [Expr.parts, List.cons_subset] at inside
      exact (checkSlice_refuses reads inside.1).bind (checkSlice_claims _ _) fun _ _ =>
        checkExprs_refuses reads elems inside.2
  | .makeSlice len cap zero, inside => by
      rw [checkExpr, Expr.parts]
      rw [Expr.parts, List.cons_subset] at inside
      split
      next above => exact .refuse (reads.location ▸ .lengthAboveCapacity inside.1 above)
      next => exact checkExpr_refuses reads zero inside.2
  | .mapLit entries, inside => by
      rw [checkExpr, Expr.parts]
      rw [Expr.parts, List.cons_subset] at inside
      exact checkEntries_refuses reads entries inside.2
  | .index base position, inside => by
      rw [checkExpr, Expr.parts, List.filterMap_cons_none rfl, List.filterMap_append]
      rw [Expr.parts, List.cons_subset, List.append_subset] at inside
      obtain ⟨-, inBase, inPosition⟩ := inside
      exact (checkExpr_refuses reads base inBase).bind (checkExpr_claims base) fun _ _ =>
        checkExpr_refuses reads position inPosition
  | .lookup base key default, inside => by
      rw [checkExpr, Expr.parts, List.filterMap_cons_none rfl, List.filterMap_append,
        List.filterMap_append, List.append_assoc]
      rw [Expr.parts, List.cons_subset, List.append_subset, List.append_subset] at inside
      obtain ⟨-, ⟨inBase, inKey⟩, inDefault⟩ := inside
      refine (checkExpr_refuses reads base inBase).bind (checkExpr_claims base) fun _ _ => ?_
      exact (checkExpr_refuses reads key inKey).bind (checkExpr_claims key) fun _ _ =>
        checkExpr_refuses reads default inDefault
  | .boxed typeTag value, inside => by
      rw [checkExpr, Expr.parts]
      rw [Expr.parts, List.cons_subset] at inside
      exact (checkBox_refuses reads inside.1).bind (checkBox_claims typeTag value) fun _ _ =>
        checkExpr_refuses reads value inside.2
  | .call callee args, inside => by
      rw [checkExpr, Expr.parts]
      rw [Expr.parts, List.cons_subset] at inside
      exact (checkCall_refuses reads inside.1).bind (checkCall_claims callee args.length)
        fun _ _ => checkExprs_refuses reads args inside.2

theorem checkExprs_refuses (reads : scope.Reads passage) : ∀ exprs : List Expr,
    partsOfExprs exprs ⊆ passage.parts →
      Refuses (scope.checkExprs exprs) ((partsOfExprs exprs).filterMap Expr.newSite?)
        (scope.Fault passage)
  | [], _ => by
      rw [checkExprs]
      exact .pure ()
  | expr :: exprs, inside => by
      rw [checkExprs, partsOfExprs, List.filterMap_append]
      rw [partsOfExprs, List.append_subset] at inside
      exact (checkExpr_refuses reads expr inside.1).bind (checkExpr_claims expr) fun _ _ =>
        checkExprs_refuses reads exprs inside.2

theorem checkFields_refuses (reads : scope.Reads passage) : ∀ fields : List (String × Expr),
    partsOfFields fields ⊆ passage.parts →
      Refuses (scope.checkFields fields) ((partsOfFields fields).filterMap Expr.newSite?)
        (scope.Fault passage)
  | [], _ => by
      rw [checkFields]
      exact .pure ()
  | (_, value) :: fields, inside => by
      rw [checkFields, partsOfFields, List.filterMap_append]
      rw [partsOfFields, List.append_subset] at inside
      exact (checkExpr_refuses reads value inside.1).bind (checkExpr_claims value) fun _ _ =>
        checkFields_refuses reads fields inside.2

theorem checkEntries_refuses (reads : scope.Reads passage) : ∀ entries : List (Expr × Expr),
    partsOfEntries entries ⊆ passage.parts →
      Refuses (scope.checkEntries entries) ((partsOfEntries entries).filterMap Expr.newSite?)
        (scope.Fault passage)
  | [], _ => by
      rw [checkEntries]
      exact .pure ()
  | (key, value) :: entries, inside => by
      rw [checkEntries, partsOfEntries, List.filterMap_append, List.filterMap_append,
        List.append_assoc]
      rw [partsOfEntries, List.append_subset, List.append_subset] at inside
      obtain ⟨⟨inKey, inValue⟩, inEntries⟩ := inside
      refine (checkExpr_refuses reads key inKey).bind (checkExpr_claims key) fun _ _ => ?_
      exact (checkExpr_refuses reads value inValue).bind (checkExpr_claims value) fun _ _ =>
        checkEntries_refuses reads entries inEntries

end

theorem checkInit_refuses (reads : scope.Reads passage) {decl : VarDecl}
    (inside : decl.parts ⊆ passage.parts) :
    Refuses (scope.checkInit decl) (decl.parts.filterMap Expr.newSite?) (scope.Fault passage) := by
  unfold checkInit
  unfold VarDecl.parts at inside ⊢
  cases initialised : decl.init with
  | none => exact .pure ()
  | some init =>
      rw [initialised] at inside
      exact checkExpr_refuses reads init inside

theorem checkReturn_refuses {function : FunctionDef} {value : Option Expr}
    {Fault : WellFormednessError → Prop}
    (fault : ¬ function.MayReturn value → Fault (.resultMismatch function.name scope.location)) :
    Refuses (scope.checkReturn function value) [] Fault := by
  unfold checkReturn
  split
  next nothing =>
    refine .refuse (fault fun allowed => ?_)
    exact absurd (allowed.1 rfl) (by rw [nothing]; decide)
  next kind unnamed =>
    refine .refuse (fault fun allowed => ?_)
    exact absurd (allowed.2 ⟨kind, unnamed⟩) (by decide)
  next => exact .pure ()

/-- A statement is refused for a defect of its passage, for a name that it declares again, or for
what it returns. -/
theorem checkStmt_refuses (reads : scope.Reads passage) {function : FunctionDef} {stmt : Stmt}
    (rooted : passage.target = stmt.target?) (inside : stmt.expressions ⊆ passage.parts)
    {Fault : WellFormednessError → Prop}
    (broken : ∀ error, scope.Fault passage error → Fault error)
    (redeclared : ∀ decl, stmt = .declare decl → decl.name ∈ scope.locals →
      Fault (.duplicateVariable decl.name function.name))
    (mismatched : ∀ value, stmt = .ret value → ¬ function.MayReturn value →
      Fault (.resultMismatch function.name scope.location)) :
    Refuses (scope.checkStmt function stmt) (stmt.sites function.name) Fault := by
  have root : ∀ name, stmt.target? = some name → name ∈ passage.variables := by
    intro name found
    rw [← rooted] at found
    exact List.mem_append_left _ (Option.mem_toList.mpr found)
  have expr {expr : Expr} (inParts : expr.parts ⊆ passage.parts) :
      Refuses (scope.checkExpr expr) (expr.parts.filterMap Expr.newSite?) Fault :=
    (checkExpr_refuses reads expr inParts).weaken broken
  have exprs {exprs : List Expr} (inParts : partsOfExprs exprs ⊆ passage.parts) :
      Refuses (scope.checkExprs exprs) ((partsOfExprs exprs).filterMap Expr.newSite?) Fault :=
    (checkExprs_refuses reads exprs inParts).weaken broken
  have last {check : Check Unit} {sites : List SiteId} (claims : Claims check sites)
      (refuses : Refuses check sites Fault) :
      Refuses (check >>= fun _ => pure scope.locals) sites Fault :=
    refuses.before claims fun _ _ => .pure _
  unfold checkStmt Stmt.sites Stmt.parts Stmt.declared?
  unfold Stmt.expressions Stmt.parts at inside
  unfold Stmt.target? at root
  cases stmt with
  | declare decl =>
      refine Refuses.perm ?_ (@List.perm_append_comm _ (decl.parts.filterMap Expr.newSite?) _)
      refine ((checkInit_refuses reads inside).weaken broken).bind (checkInit_claims decl)
        fun _ _ => ?_
      refine (Refuses.declare (redeclared decl rfl)).bind (.declare _ _ _) fun locals _ => ?_
      exact (Refuses.claim (decl.siteId function.name)).before (.claim _) fun _ _ => .pure _
  | assign target value =>
      have named := (checkName_refuses reads (root target rfl)).weaken broken
      exact named.bind (checkName_claims target) fun _ _ => last (checkExpr_claims value)
        (expr inside)
  | setField target name value =>
      rw [List.append_subset] at inside
      have placed := (checkPlace_refuses reads target root inside.1).weaken broken
      simp only [Option.map_none, Option.toList_none, List.nil_append, List.filterMap_append]
      exact placed.bind (checkPlace_claims target) fun _ _ => last (checkExpr_claims value)
        (expr inside.2)
  | store pointer value =>
      rw [List.append_subset] at inside
      simp only [Option.map_none, Option.toList_none, List.nil_append, List.filterMap_append]
      exact (expr inside.1).bind (checkExpr_claims pointer) fun _ _ => last (checkExpr_claims value)
        (expr inside.2)
  | setIndex target index value | setKey target index value =>
      rw [List.append_subset, List.append_subset] at inside
      have placed := (checkPlace_refuses reads target root inside.1.1).weaken broken
      simp only [Option.map_none, Option.toList_none, List.nil_append, List.filterMap_append,
        List.append_assoc]
      refine placed.bind (checkPlace_claims target) fun _ _ => ?_
      exact (expr inside.1.2).bind (checkExpr_claims index) fun _ _ => last (checkExpr_claims value)
        (expr inside.2)
  | append target values =>
      rw [List.append_subset] at inside
      have placed := (checkPlace_refuses reads target root inside.1).weaken broken
      simp only [Option.map_none, Option.toList_none, List.nil_append, List.filterMap_append]
      exact placed.bind (checkPlace_claims target) fun _ _ => last (checkExprs_claims values)
        (exprs inside.2)
  | call callee args =>
      dsimp only at inside
      rw [Expr.parts, List.cons_subset] at inside
      have called := (checkCall_refuses reads inside.1).weaken broken
      exact called.bind (checkCall_claims callee args.length) fun _ _ =>
        last (checkExprs_claims args) (exprs inside.2)
  | ret value =>
      refine (checkReturn_refuses (mismatched value rfl)).bind (checkReturn_claims function value)
        fun _ _ => ?_
      cases value with
      | none => exact .pure _
      | some value => exact last (checkExpr_claims value) (expr inside)

end Scope

end ReferenceSemantics

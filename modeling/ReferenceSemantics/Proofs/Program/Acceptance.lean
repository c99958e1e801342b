import Mathlib.Data.List.Nodup
import ReferenceSemantics.Program.Check
import ReferenceSemantics.Run.Machine

set_option autoImplicit false

/-!
What is known of a program that passed its check.

No name is defined twice, so the first and the last definition of a name are the same. The name of a
result is declared before the body, so no statement declares it again.
-/

namespace ReferenceSemantics

/-- The check passes for some claimed sites, and gives the result. -/
def Check.Gives {α : Type} (check : Check α) (result : α) : Prop :=
  ∃ before after, check.run before = .ok (result, after)

namespace Check

variable {α β : Type}

theorem Gives.bind {first : Check α} {next : α → Check β} {result : β}
    (gives : Gives (first >>= next) result) :
    ∃ value, Gives first value ∧ Gives (next value) result := by
  obtain ⟨before, after, ran⟩ := gives
  rw [StateT.run_bind] at ran
  cases started : first.run before with
  | error error =>
      rw [started] at ran
      cases ran
  | ok reached =>
      rw [started] at ran
      exact ⟨reached.1, ⟨before, reached.2, started⟩, reached.2, after, ran⟩

theorem gives_pure {value result : α} (gives : Gives (pure value) result) : value = result := by
  obtain ⟨before, after, ran⟩ := gives
  cases ran
  rfl

theorem not_gives_refuse {error : WellFormednessError} {result : α} :
    ¬ Gives (refuse error) result := by
  rintro ⟨before, after, ran⟩
  cases ran

theorem Gives.forM {items : List α} {check : α → Check Unit}
    (gives : Gives (items.forM check) ()) {item : α} (member : item ∈ items) :
    Gives (check item) () := by
  induction items with
  | nil => cases member
  | cons head items inductionHypothesis =>
      obtain ⟨_, here, rest⟩ :=
        (show Gives (check head >>= fun _ => items.forM check) () from gives).bind
      rcases List.mem_cons.mp member with rfl | later
      · exact here
      · exact inductionHypothesis rest later

/-- A name is declared only where it is new. -/
theorem gives_declare {names result : List String} {name function : String}
    (gives : Gives (declare names name function) result) :
    name ∉ names ∧ result = name :: names := by
  unfold declare at gives
  split at gives
  next => exact absurd gives not_gives_refuse
  next fresh => exact ⟨by simpa using fresh, (gives_pure gives).symm⟩

end Check

open Check

/-- A statement adds the slot that it declares to the locals. -/
theorem Scope.locals_checkStmt {scope : Scope} {function : FunctionDef} {stmt : Stmt}
    {locals : List String} (gives : Gives (scope.checkStmt function stmt) locals) :
    locals = (stmt.declared?.map (·.name)).toList ++ scope.locals := by
  have unchanged : ∀ {check : Check Unit},
      Gives (check >>= fun _ => pure scope.locals) locals → locals = scope.locals := by
    intro check gives
    obtain ⟨_, -, gives⟩ := gives.bind
    exact (gives_pure gives).symm
  cases stmt with
  | declare decl =>
      obtain ⟨_, -, gives⟩ := gives.bind
      obtain ⟨names, declared, gives⟩ := gives.bind
      obtain ⟨_, -, gives⟩ := gives.bind
      rw [← gives_pure gives]
      exact (gives_declare declared).2
  | assign target value | setField target name value | store pointer value | append target values
  | call callee args | ret value =>
      obtain ⟨_, -, gives⟩ := gives.bind
      exact unchanged gives
  | setIndex target index value | setKey target key value =>
      obtain ⟨_, -, gives⟩ := gives.bind
      obtain ⟨_, -, gives⟩ := gives.bind
      exact unchanged gives

/-- A statement declares at most a new local. -/
theorem Scope.gives_checkStmt {scope : Scope} {function : FunctionDef} {stmt : Stmt}
    {locals : List String} (gives : Gives (scope.checkStmt function stmt) locals) :
    scope.locals ⊆ locals ∧ ∀ decl, stmt.declared? = some decl → decl.name ∉ scope.locals := by
  refine ⟨locals_checkStmt gives ▸ List.subset_append_right _ _, ?_⟩
  intro decl declared
  cases stmt with
  | declare _ =>
      cases declared
      obtain ⟨_, -, gives⟩ := gives.bind
      obtain ⟨_, here, -⟩ := gives.bind
      exact (gives_declare here).1
  | _ => cases declared

namespace FunctionDef

variable {function : FunctionDef} {functions : List FunctionDef} {globals : List String}

/-- The slots of a function have different names. -/
theorem gives_checkSlots {names : List String} :
    ∀ {locals result : List String}, Gives (function.checkSlots locals names) result →
      result = names.reverse ++ locals ∧ (locals.Nodup → result.Nodup) := by
  induction names with
  | nil =>
      intro locals result gives
      rw [checkSlots] at gives
      obtain rfl := gives_pure gives
      exact ⟨rfl, id⟩
  | cons name names inductionHypothesis =>
      intro locals result gives
      rw [checkSlots] at gives
      obtain ⟨_, declared, gives⟩ := gives.bind
      obtain ⟨_, -, gives⟩ := gives.bind
      obtain ⟨fresh, rfl⟩ := gives_declare declared
      obtain ⟨same, distinct⟩ := inductionHypothesis gives
      refine ⟨?_, fun nodup => distinct (List.nodup_cons.mpr ⟨fresh, nodup⟩)⟩
      rw [same, List.reverse_cons, List.append_assoc, List.singleton_append]

/-- Only the parameters and the named result are locals before the body. -/
theorem mem_checkSlots {names locals : List String}
    (gives : Gives (function.checkSlots [] names) locals) {name : String} :
    name ∈ locals ↔ name ∈ names := by
  rw [(gives_checkSlots gives).1, List.append_nil, List.mem_reverse]

/-- No statement of a body declares a local again. -/
theorem gives_checkBody {stmts : List Stmt} :
    ∀ {locals : List String} {index : Nat},
      Gives (function.checkBody functions globals locals index stmts) () →
        ∀ stmt ∈ stmts, ∀ decl, stmt.declared? = some decl → decl.name ∉ locals := by
  induction stmts with
  | nil => exact fun _ => nofun
  | cons first stmts inductionHypothesis =>
      intro locals index gives stmt member decl declared
      rw [checkBody] at gives
      obtain ⟨later, here, rest⟩ := gives.bind
      obtain ⟨kept, fresh⟩ := Scope.gives_checkStmt here
      rcases List.mem_cons.mp member with rfl | inRest
      · exact fresh decl declared
      · exact fun inLocals => inductionHypothesis rest stmt inRest decl declared (kept inLocals)

theorem result_of_namedResult {name : String} (named : function.namedResult = some name) :
    ∃ kind, function.result = some ⟨some name, kind⟩ := by
  obtain ⟨⟨result, kind⟩, found, same⟩ := Option.bind_eq_some_iff.mp named
  exact ⟨kind, by rw [found, ← same]⟩

/-- No statement declares the named result again. -/
theorem gives_check (gives : Gives (function.check functions globals) ()) {result : String}
    (named : function.namedResult = some result) {stmt : Stmt} (member : stmt ∈ function.body)
    {decl : VarDecl} (declared : stmt.declared? = some decl) : decl.name ≠ result := by
  obtain ⟨locals, slots, gives⟩ := gives.bind
  obtain ⟨_, body, -⟩ := gives.bind
  rintro rfl
  apply gives_checkBody body stmt member decl declared
  apply (mem_checkSlots slots).mpr
  simp [slotNames, named]

end FunctionDef

namespace Program

theorem nodup_of_firstRepeated? {names : List String} :
    ∀ {seen : List String}, firstRepeated? seen names = none →
      names.Nodup ∧ ∀ name ∈ names, name ∉ seen := by
  induction names with
  | nil => exact fun _ => ⟨.nil, nofun⟩
  | cons name names inductionHypothesis =>
      intro seen unrepeated
      rw [firstRepeated?] at unrepeated
      split at unrepeated
      next => cases unrepeated
      next fresh =>
        obtain ⟨nodup, unseen⟩ := inductionHypothesis unrepeated
        refine ⟨List.nodup_cons.mpr ⟨?_, nodup⟩, ?_⟩
        · exact fun inRest => unseen name inRest (List.mem_cons_self ..)
        · intro other member
          rcases List.mem_cons.mp member with rfl | inRest
          · simpa using fresh
          · exact fun inSeen => unseen other inRest (List.mem_cons_of_mem _ inSeen)

variable {program : Program} {entry : String}

/-- The rules that an accepted program keeps. -/
structure Accepted (program : Program) (entry : String) : Prop where
  single : (program.functions.map (·.name)).Nodup
  entry : ∃ function, program.function? entry = some function ∧ function.params = []
  functions : ∀ function ∈ program.functions, ∃ globals,
    Gives (function.check program.functions globals) ()

theorem entry_of_checkEntry (checked : program.checkEntry entry = .ok ()) :
    ∃ function, program.function? entry = some function ∧ function.params = [] := by
  unfold checkEntry at checked
  split at checked
  next => cases checked
  next function found =>
    split at checked
    next empty => exact ⟨function, found, List.isEmpty_iff.mp empty⟩
    next => cases checked

/-- The parts of the check before the search for recursion, each of which passes. -/
structure Resolved (program : Program) (entry : String) : Prop where
  unrepeated : firstRepeated? [] (program.functions.map (·.name)) = none
  entered : program.checkEntry entry = .ok ()
  definitions : ∃ claimed, program.checkDefinitions.run [] = .ok ((), claimed)

/-- How the check ends: a part of it refuses, or the search for recursion decides. -/
theorem check_cases (program : Program) (entry : String) :
    (∃ name, firstRepeated? [] (program.functions.map (·.name)) = some name ∧
      program.check entry = .error (.duplicateFunction name)) ∨
    (∃ error, program.checkEntry entry = .error error ∧ program.check entry = .error error) ∨
    (∃ error, program.checkDefinitions.run [] = .error error ∧
      program.check entry = .error error) ∨
    (program.Resolved entry ∧ program.check entry = program.callGraph.check) := by
  unfold check
  cases unrepeated : firstRepeated? [] (program.functions.map (·.name)) with
  | some name => exact .inl ⟨name, rfl, rfl⟩
  | none =>
      refine .inr ?_
      cases entered : program.checkEntry entry with
      | error error => exact .inl ⟨error, rfl, rfl⟩
      | ok _ =>
          refine .inr ?_
          cases defined : program.checkDefinitions.run [] with
          | error error => exact .inl ⟨error, rfl, rfl⟩
          | ok reached => exact .inr ⟨⟨unrepeated, entered, reached.2, defined⟩, rfl⟩

theorem resolved_of_check (checked : program.check entry = .ok ()) :
    program.Resolved entry ∧ program.callGraph.check = .ok () := by
  rcases program.check_cases entry with ⟨_, -, refused⟩ | ⟨_, -, refused⟩ | ⟨_, -, refused⟩ |
    ⟨resolved, same⟩
  · rw [refused] at checked; cases checked
  · rw [refused] at checked; cases checked
  · rw [refused] at checked; cases checked
  · exact ⟨resolved, same.symm.trans checked⟩

/-- The globals have different names. -/
theorem gives_checkGlobals {functions : List FunctionDef} {decls : List VarDecl} :
    ∀ {names result : List String} {index : Nat},
      Gives (checkGlobals functions names index decls) result →
        result = (decls.map (·.name)).reverse ++ names ∧ (names.Nodup → result.Nodup) := by
  induction decls with
  | nil =>
      intro names result index gives
      rw [checkGlobals] at gives
      obtain rfl := gives_pure gives
      exact ⟨rfl, id⟩
  | cons decl decls inductionHypothesis =>
      intro names result index gives
      rw [checkGlobals] at gives
      obtain ⟨_, -, gives⟩ := gives.bind
      obtain ⟨_, declared, gives⟩ := gives.bind
      obtain ⟨fresh, rfl⟩ := gives_declare declared
      obtain ⟨same, distinct⟩ := inductionHypothesis gives
      refine ⟨?_, fun nodup => distinct (List.nodup_cons.mpr ⟨fresh, nodup⟩)⟩
      rw [same, List.map_cons, List.reverse_cons, List.append_assoc, List.singleton_append]

variable {all : List String}

/-- Every function passes its check with the names of all globals. -/
structure Globals (program : Program) (all : List String) : Prop where
  globals : Gives (checkGlobals program.functions [] 0 program.globals) all
  functions : ∀ function ∈ program.functions, Gives (function.check program.functions all) ()

theorem Resolved.exists_globals (resolved : program.Resolved entry) :
    ∃ all, program.Globals all := by
  obtain ⟨claimed, defined⟩ := resolved.definitions
  have gives : Gives program.checkDefinitions () := ⟨[], claimed, defined⟩
  obtain ⟨all, globals, gives⟩ := gives.bind
  exact ⟨all, globals, fun function member => gives.forM member⟩

theorem exists_globals (checked : program.check entry = .ok ()) : ∃ all, program.Globals all :=
  (resolved_of_check checked).1.exists_globals

theorem accepted_of_check (checked : program.check entry = .ok ()) : program.Accepted entry := by
  obtain ⟨resolved, -⟩ := resolved_of_check checked
  obtain ⟨globals, known⟩ := resolved.exists_globals
  exact ⟨(nodup_of_firstRepeated? resolved.unrepeated).1, entry_of_checkEntry resolved.entered,
    fun function member => ⟨globals, known.functions function member⟩⟩

variable {config : Config}

/-- A model defines the functions of its program. -/
theorem of_function? {name : String} {function : FunctionDef}
    (found : (Model.new program config).function? name = some function) :
    function ∈ program.functions ∧ function.name = name :=
  ⟨List.mem_reverse.mp (List.mem_of_find?_eq_some found), by simpa using List.find?_some found⟩

theorem Globals.function (known : program.Globals all) {name : String} {function : FunctionDef}
    (found : (Model.new program config).function? name = some function) :
    function.name = name ∧ Gives (function.check program.functions all) () := by
  obtain ⟨member, named⟩ := of_function? found
  exact ⟨named, known.functions function member⟩

theorem Accepted.entry_params (accepted : program.Accepted entry)
    {function : FunctionDef} (found : (Model.new program config).function? entry = some function) :
    function.params = [] := by
  obtain ⟨member, named⟩ := of_function? found
  obtain ⟨first, defined, empty⟩ := accepted.entry
  have same : function = first := by
    apply List.inj_on_of_nodup_map accepted.single member (List.mem_of_find?_eq_some defined)
    have firstNamed : first.name = entry := by simpa using List.find?_some defined
    exact named.trans firstNamed.symm
  exact same ▸ empty

end Program

end ReferenceSemantics

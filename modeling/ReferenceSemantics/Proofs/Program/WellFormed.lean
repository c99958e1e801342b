import ReferenceSemantics.Proofs.Program.Ranking
import ReferenceSemantics.Proofs.Program.Refusals

set_option autoImplicit false

/-!
The check accepts the well-formed programs and no others.

`Program.WellFormed` says what a program must be without saying in which order that is checked. A
program that passes is well-formed, since every rule was met on the way. One that is refused has the
defect that the error names, so it is not well-formed. Recursion is left out: it is looked for last,
in programs that are well-formed.
-/

namespace ReferenceSemantics

open Check

/-! ### The rules -/

/-- The rules for an expression by itself: a call fits a definition, a slice has room for its
elements and spare room only beside an element, a box without a type tag holds `nil`. -/
def Expr.Formed (functions : List FunctionDef) : Expr → Prop
  | call callee args =>
      ∃ function ∈ functions, function.name = callee ∧ function.params.length = args.length
  | sliceLit elems capacity =>
      elems.length ≤ capacity.getD elems.length ∧ (elems = [] → capacity.getD 0 = 0)
  | makeSlice length capacity _ => length ≤ capacity
  | boxed none value => value = nil
  | _ => True

namespace Program

/-- What a program must be, apart from being free of recursion. -/
structure WellFormed (program : Program) (entry : String) : Prop where
  functions : (program.functions.map (·.name)).Nodup
  entry : ∃ function ∈ program.functions, function.name = entry ∧ function.params = []
  globals : (program.globals.map (·.name)).Nodup
  locals : ∀ function ∈ program.functions, function.declaredNames.Nodup
  mentions : ∀ passage, program.Contains passage → passage.variables ⊆ passage.visible
  expressions : ∀ passage, program.Contains passage →
    ∀ part ∈ passage.parts, part.Formed program.functions
  returns : ∀ function ∈ program.functions, ∀ value, .ret value ∈ function.body →
    function.MayReturn value
  ends : ∀ function ∈ program.functions, function.ResultUnnamed → function.EndsWithValue
  sites : program.sites.Nodup

variable {program : Program} {entry : String} {all : List String}

/-! ### A defect breaks a rule -/

theorem WellFormed.not_defect_passage (wellFormed : program.WellFormed entry) {passage : Passage}
    (contains : program.Contains passage) {error : WellFormednessError} :
    ¬ passage.Defect program.functions error := by
  have formed {part : Expr} (member : part ∈ passage.parts) : part.Formed program.functions :=
    wellFormed.expressions passage contains part member
  intro defect
  cases defect with
  | unknownVariable mentioned invisible =>
      exact invisible (wellFormed.mentions passage contains mentioned)
  | unknownFunction called undefined =>
      obtain ⟨function, member, rfl, -⟩ := formed called
      exact undefined (List.mem_map_of_mem member)
  | arityMismatch called member differs =>
      obtain ⟨function, defined, named, fits⟩ := formed called
      obtain rfl := List.inj_on_of_nodup_map wellFormed.functions defined member named
      exact differs fits
  | capacityBelowLength built below => exact absurd (formed built).1 (Nat.not_le.mpr below)
  | spareWithoutElement built spare =>
      have none := (formed built).2 rfl
      omega
  | lengthAboveCapacity made above => exact absurd (formed made) (Nat.not_le.mpr above)
  | untypedBox held notNil => exact notNil (formed held)

/-- A well-formed program has no defect. -/
theorem WellFormed.not_defect (wellFormed : program.WellFormed entry)
    {error : WellFormednessError} : ¬ program.Defect entry error := by
  intro defect
  cases defect with
  | duplicateFunction repeated => exact repeated.not_nodup wellFormed.functions
  | missingEntry missing =>
      obtain ⟨function, member, rfl, -⟩ := wellFormed.entry
      exact missing (List.mem_map_of_mem member)
  | entryTakesParameters member named takes =>
      obtain ⟨function, defined, same, empty⟩ := wellFormed.entry
      obtain rfl := List.inj_on_of_nodup_map wellFormed.functions defined member
        (same.trans named.symm)
      exact takes empty
  | passage contains defect => exact wellFormed.not_defect_passage contains defect
  | duplicateGlobal repeated => exact repeated.not_nodup wellFormed.globals
  | duplicateLocal member repeated => exact repeated.not_nodup (wellFormed.locals _ member)
  | duplicateSite repeated => exact repeated.not_nodup wellFormed.sites
  | resultMismatch member standing differs =>
      refine differs (wellFormed.returns _ member _ ?_)
      rw [standing]
      exact List.mem_append_right _ (List.mem_cons_self ..)
  | missingReturn member unnamed openEnded => exact openEnded (wellFormed.ends _ member unnamed)

end Program

/-! ### A refused program has a defect -/

theorem duplicate_append {α : Type} {first second : List α} {item : α} (before : item ∈ first)
    (after : item ∈ second) : List.Duplicate item (first ++ second) := by
  rw [List.duplicate_iff_sublist]
  exact (List.singleton_sublist.mpr before).append (List.singleton_sublist.mpr after)

theorem declaredIn_append (earlier later : List Stmt) :
    declaredIn (earlier ++ later) = declaredIn earlier ++ declaredIn later := by
  simp only [declaredIn, List.filterMap_append, List.map_append]

theorem declaredIn_singleton (stmt : Stmt) :
    declaredIn [stmt] = (stmt.declared?.map (·.name)).toList := by
  unfold declaredIn
  cases found : stmt.declared? with
  | none =>
      rw [List.filterMap_cons_none found, List.filterMap_nil]
      rfl
  | some decl =>
      rw [List.filterMap_cons_some found, List.filterMap_nil]
      rfl

theorem mem_declaredIn {decl : VarDecl} {stmts : List Stmt} (member : .declare decl ∈ stmts) :
    decl.name ∈ declaredIn stmts :=
  List.mem_map_of_mem (List.mem_filterMap.mpr ⟨.declare decl, member, rfl⟩)

namespace FunctionDef

variable {program : Program} {entry : String} {function : FunctionDef}

/-- The locals declared before a statement are those of the slots and of the earlier statements. -/
def Declared (function : FunctionDef) (earlier : List Stmt) (locals : List String) : Prop :=
  ∀ name, name ∈ locals ↔ name ∈ function.slotNames ++ declaredIn earlier

theorem Declared.next {earlier : List Stmt} {locals later : List String} {stmt : Stmt}
    (declared : function.Declared earlier locals)
    (grown : later = (stmt.declared?.map (·.name)).toList ++ locals) :
    function.Declared (earlier ++ [stmt]) later := by
  intro name
  rw [grown, declaredIn_append, declaredIn_singleton, List.mem_append, declared name,
    List.mem_append, List.mem_append, List.mem_append]
  exact or_comm.trans or_assoc

/-- The scope of a statement sees what its passage may mention. -/
theorem Declared.reads {earlier : List Stmt} {locals all : List String} {stmt : Stmt}
    (declared : function.Declared earlier locals)
    (globals : ∀ name, name ∈ all ↔ name ∈ program.globals.map (·.name)) :
    Scope.Reads ⟨program.functions, all, locals, ⟨function.name, earlier.length⟩⟩
      (stmt.passage program function earlier) where
  location := rfl
  visible name := by
    change name ∈ function.slotNames ++ declaredIn earlier ++ program.globals.map (·.name) ↔
      name ∈ locals ∨ name ∈ all
    rw [List.mem_append, declared name, globals name]

theorem checkSlots_refuses (member : function ∈ program.functions) {names : List String} :
    ∀ (earlier : List String) {locals : List String}, function.slotNames = earlier ++ names →
      (∀ name, name ∈ locals ↔ name ∈ earlier) →
        Refuses (function.checkSlots locals names) (names.map (defaultSite function.name))
          (program.Defect entry) := by
  induction names with
  | nil =>
      intro earlier locals _ _
      rw [checkSlots]
      exact .pure _
  | cons name names inductionHypothesis =>
      intro earlier locals slots same
      have again : name ∈ locals → List.Duplicate name function.declaredNames := by
        intro known
        unfold declaredNames
        rw [slots, List.append_assoc]
        exact duplicate_append ((same name).mp known) (List.mem_cons_self ..)
      rw [checkSlots, List.map_cons]
      refine (Refuses.declare fun known => .duplicateLocal member (again known)).bind
        (.declare locals name function.name) fun grown gives => ?_
      obtain ⟨-, rfl⟩ := gives_declare gives
      refine (Refuses.claim (defaultSite function.name name)).bind (.claim _) fun _ _ => ?_
      refine inductionHypothesis (earlier ++ [name]) ?_ fun other => ?_
      · rw [slots, List.append_assoc, List.singleton_append]
      · rw [List.mem_cons, same other, List.mem_append, List.mem_singleton, or_comm]

theorem checkBody_refuses (member : function ∈ program.functions) {all : List String}
    (globals : ∀ name, name ∈ all ↔ name ∈ program.globals.map (·.name)) {stmts : List Stmt} :
    ∀ (earlier : List Stmt) {locals : List String}, function.body = earlier ++ stmts →
      function.Declared earlier locals →
        Refuses (function.checkBody program.functions all locals earlier.length stmts)
          (stmts.flatMap (Stmt.sites function.name)) (program.Defect entry) := by
  induction stmts with
  | nil =>
      intro earlier locals _ _
      rw [checkBody]
      exact .pure _
  | cons stmt stmts inductionHypothesis =>
      intro earlier locals body declared
      rw [checkBody, List.flatMap_cons]
      have contains := Program.Contains.statement member body
      refine Refuses.bind (Scope.checkStmt_claims function stmt) ?_ fun later gives => ?_
      · refine Scope.checkStmt_refuses (declared.reads globals) rfl (List.Subset.refl _)
          (fun _ defect => .passage contains defect) ?_ ?_
        · rintro decl rfl known
          refine .duplicateLocal member ?_
          unfold declaredNames
          rw [body, declaredIn_append, ← List.append_assoc]
          exact duplicate_append ((declared decl.name).mp known)
            (mem_declaredIn (List.mem_cons_self ..))
        · rintro value rfl differs
          exact .resultMismatch member body differs
      · have rest := inductionHypothesis (earlier ++ [stmt])
          (by rw [body, List.append_assoc, List.singleton_append])
          (declared.next (Scope.locals_checkStmt gives))
        rwa [List.length_append, List.length_singleton] at rest

theorem checkEnd_refuses (member : function ∈ program.functions) :
    Refuses function.checkEnd [] (program.Defect entry) := by
  unfold checkEnd
  split
  next kind unnamed =>
    split
    next => exact .pure _
    next openEnded =>
      refine .refuse (.missingReturn member ⟨kind, unnamed⟩ ?_)
      rintro ⟨value, last⟩
      exact openEnded (by rw [endsWithValue, last])
  next => exact .pure _

theorem declared_of_checkSlots {locals : List String}
    (gives : Gives (function.checkSlots [] function.slotNames) locals) :
    function.Declared [] locals := by
  intro name
  rw [show declaredIn [] = [] from rfl, List.append_nil]
  exact mem_checkSlots gives

theorem check_refuses (member : function ∈ program.functions) {all : List String}
    (globals : ∀ name, name ∈ all ↔ name ∈ program.globals.map (·.name)) :
    Refuses (function.check program.functions all) function.sites (program.Defect entry) := by
  refine (checkSlots_refuses member [] (List.nil_append _).symm fun _ => Iff.rfl).bind
    (checkSlots_claims function.slotNames []) fun locals gives => ?_
  refine (checkBody_refuses member globals [] rfl (declared_of_checkSlots gives)).before
    (checkBody_claims function.body locals 0) fun _ _ => ?_
  exact checkEnd_refuses member

end FunctionDef

namespace Program

variable {program : Program} {entry : String}

theorem checkGlobals_refuses {decls : List VarDecl} :
    ∀ (earlier : List VarDecl) {names : List String}, program.globals = earlier ++ decls →
      (∀ name, name ∈ names ↔ name ∈ earlier.map (·.name)) →
        Refuses (checkGlobals program.functions names earlier.length decls)
          (decls.flatMap fun decl => decl.parts.filterMap Expr.newSite?)
          (program.Defect entry) := by
  induction decls with
  | nil =>
      intro earlier names _ _
      rw [checkGlobals]
      exact .pure _
  | cons decl decls inductionHypothesis =>
      intro earlier names globals same
      have reads : Scope.Reads ⟨program.functions, [], names, ⟨globalsFrame, earlier.length⟩⟩
          (decl.passage earlier) := by
        refine ⟨rfl, fun name => ?_⟩
        change name ∈ earlier.map (·.name) ↔ name ∈ names ∨ name ∈ []
        rw [same name, or_iff_left List.not_mem_nil]
      have again : decl.name ∈ names → List.Duplicate decl.name (program.globals.map (·.name)) := by
        intro known
        rw [globals, List.map_append, List.map_cons]
        exact duplicate_append ((same decl.name).mp known) (List.mem_cons_self ..)
      have broken (error : WellFormednessError)
          (defect : (decl.passage earlier).Defect program.functions error) :
          program.Defect entry error := .passage (.initialiser globals) defect
      rw [checkGlobals, List.flatMap_cons]
      refine ((Scope.checkInit_refuses reads (List.Subset.refl _)).weaken broken).bind
        (Scope.checkInit_claims decl) fun _ _ => ?_
      refine (Refuses.declare fun known => .duplicateGlobal (again known)).bind
        (.declare names decl.name globalsFrame) fun grown gives => ?_
      obtain ⟨-, rfl⟩ := gives_declare gives
      have rest := @inductionHypothesis (earlier ++ [decl]) (decl.name :: names) ?_ fun other => ?_
      · rwa [List.length_append, List.length_singleton] at rest
      · rw [globals, List.append_assoc, List.singleton_append]
      · rw [List.mem_cons, same other, List.map_append, List.mem_append, List.map_singleton,
          List.mem_singleton, or_comm]

theorem checkDefinitions_refuses (program : Program) (entry : String) :
    Refuses program.checkDefinitions program.sites (program.Defect entry) := by
  refine (checkGlobals_refuses [] rfl fun _ => Iff.rfl).bind
    (checkGlobals_claims program.globals [] 0) fun all gives => ?_
  have globals (name : String) : name ∈ all ↔ name ∈ program.globals.map (·.name) := by
    rw [(gives_checkGlobals gives).1, List.append_nil, List.mem_reverse]
  exact .forM (fun function _ => function.check_claims) fun function member =>
    function.check_refuses member globals

theorem defect_of_firstRepeated? {names : List String} :
    ∀ {seen : List String} {name : String}, firstRepeated? seen names = some name →
      name ∈ seen ∧ name ∈ names ∨ List.Duplicate name names := by
  induction names with
  | nil =>
      rintro seen name ⟨⟩
  | cons first names inductionHypothesis =>
      intro seen name found
      rw [firstRepeated?] at found
      split at found
      next known =>
        cases found
        exact .inl ⟨by simpa using known, List.mem_cons_self ..⟩
      next =>
        rcases inductionHypothesis found with ⟨known, later⟩ | repeated
        · rcases List.mem_cons.mp known with rfl | before
          · exact .inr (List.Mem.duplicate_cons_self later)
          · exact .inl ⟨before, List.mem_cons_of_mem _ later⟩
        · exact .inr (repeated.duplicate_cons first)

theorem defect_of_checkEntry {error : WellFormednessError}
    (refused : program.checkEntry entry = .error error) : program.Defect entry error := by
  unfold checkEntry at refused
  split at refused
  next missing =>
    cases refused
    refine .missingEntry fun member => ?_
    obtain ⟨function, inFunctions, named⟩ := List.mem_map.mp member
    exact List.find?_eq_none.mp missing function inFunctions (by simpa using named)
  next function found =>
    split at refused
    next => cases refused
    next takes =>
      cases refused
      refine .entryTakesParameters (List.mem_of_find?_eq_some found)
        (by simpa using List.find?_some found) fun empty => takes ?_
      rw [empty]
      rfl

theorem defect_of_checkDefinitions {error : WellFormednessError}
    (refused : program.checkDefinitions.run [] = .error error) : program.Defect entry error := by
  rcases program.checkDefinitions_refuses entry [] error refused .nil with defect |
    ⟨site, rfl, repeated⟩
  · exact defect
  · exact .duplicateSite (by rwa [List.append_nil] at repeated)

/-- The error of a refused program names a defect that the program has, but for a cycle of calls,
which is found once all else holds. -/
theorem defect_of_check {error : WellFormednessError}
    (refused : program.check entry = .error error) :
    program.Defect entry error ∨ program.Resolved entry ∧ CallGraph.ReportsCycle error := by
  rcases program.check_cases entry with ⟨name, repeated, same⟩ | ⟨early, entered, same⟩ |
    ⟨early, defined, same⟩ | ⟨resolved, same⟩
  · cases same.symm.trans refused
    exact .inl (.duplicateFunction ((defect_of_firstRepeated? repeated).resolve_left
      fun known => List.not_mem_nil known.1))
  · cases same.symm.trans refused
    exact .inl (defect_of_checkEntry entered)
  · cases same.symm.trans refused
    exact .inl (defect_of_checkDefinitions defined)
  · exact .inr ⟨resolved, CallGraph.check_refuses (same.symm.trans refused)⟩

theorem not_defect_recursiveCall {function via : String} :
    ¬ program.Defect entry (.recursiveCall function via) := by
  rintro (_ | _ | _ | ⟨-, broken⟩)
  cases broken

end Program

/-! ### An accepted program keeps every rule -/

namespace Scope

variable {scope : Scope}

theorem gives_checkCall {callee : String} {args : List Expr}
    (gives : Gives (scope.checkCall callee args.length) ()) :
    Expr.Formed scope.functions (.call callee args) := by
  unfold checkCall at gives
  split at gives
  next => exact absurd gives not_gives_refuse
  next function found =>
    split at gives
    next fits =>
      exact ⟨function, List.mem_of_find?_eq_some found, by simpa using List.find?_some found, fits⟩
    next => exact absurd gives not_gives_refuse

theorem gives_checkSlice {elems : List Expr} {capacity : Option Nat}
    (gives : Gives (scope.checkSlice elems.length (capacity.getD elems.length)) ()) :
    Expr.Formed scope.functions (.sliceLit elems capacity) := by
  unfold checkSlice at gives
  split at gives
  next => exact absurd gives not_gives_refuse
  next room =>
    split at gives
    next => exact absurd gives not_gives_refuse
    next beside =>
      refine ⟨Nat.not_lt.mp room, ?_⟩
      rintro rfl
      exact Nat.eq_zero_of_not_pos fun spare => beside ⟨spare, rfl⟩

theorem gives_checkBox {typeTag : Option String} {value : Expr}
    (gives : Gives (scope.checkBox typeTag value) ()) :
    Expr.Formed scope.functions (.boxed typeTag value) := by
  unfold checkBox at gives
  split at gives
  next => exact trivial
  next => exact rfl
  next => exact absurd gives not_gives_refuse

/-- A checked expression keeps the rules for its form. -/
theorem formed_of_checkExpr {expr : Expr} (gives : Gives (scope.checkExpr expr) ()) :
    expr.Formed scope.functions := by
  cases expr with
  | call callee args =>
      rw [checkExpr] at gives
      exact gives_checkCall gives.bind.choose_spec.1
  | sliceLit elems capacity =>
      rw [checkExpr] at gives
      exact gives_checkSlice gives.bind.choose_spec.1
  | boxed typeTag value =>
      rw [checkExpr] at gives
      exact gives_checkBox gives.bind.choose_spec.1
  | makeSlice length capacity zero =>
      rw [checkExpr] at gives
      split at gives
      next => exact absurd gives not_gives_refuse
      next fits => exact Nat.not_lt.mp fits
  | _ => trivial

/-- In a checked statement, a call that is a statement also keeps the rules. -/
theorem formed_of_checkStmt {function : FunctionDef} {stmt : Stmt} {locals : List String}
    (gives : Gives (scope.checkStmt function stmt) locals) :
    ∀ part ∈ stmt.expressions, part.Formed scope.functions := by
  intro part member
  have inside : part ∈ stmt.parts → part.Formed scope.functions := fun inParts =>
    formed_of_checkExpr (admits_of_checkStmt gives part inParts)
  cases stmt with
  | call callee args =>
      rw [Stmt.expressions, Expr.parts] at member
      rcases List.mem_cons.mp member with rfl | inArgs
      · obtain ⟨_, called, -⟩ := gives.bind
        exact gives_checkCall called
      · exact inside inArgs
  | _ => exact inside member

end Scope

/-- A call that is a statement mentions what its arguments mention. -/
theorem Stmt.variables_passage (stmt : Stmt) (program : Program) (function : FunctionDef)
    (earlier : List Stmt) : (stmt.passage program function earlier).variables = stmt.variables := by
  unfold Passage.variables Stmt.variables
  cases stmt with
  | call callee args =>
      change _ ++ List.filterMap Expr.variable? (Expr.call callee args).parts = _
      rw [Expr.parts, List.filterMap_cons_none rfl]
      rfl
  | _ => rfl

theorem FunctionDef.mayReturn_of_checkStmt {function : FunctionDef} {scope : Scope}
    {value : Option Expr} {locals : List String}
    (gives : Gives (scope.checkStmt function (.ret value)) locals) : function.MayReturn value := by
  obtain ⟨_, returns, -⟩ := gives.bind
  unfold Scope.checkReturn at returns
  split at returns
  next => exact absurd returns not_gives_refuse
  next => exact absurd returns not_gives_refuse
  next noResult noValue =>
    refine ⟨fun given => ?_, ?_⟩
    · cases declared : function.result with
      | none =>
          obtain ⟨expr, some⟩ := Option.isSome_iff_exists.mp given
          exact (noResult expr declared some).elim
      | some result => rfl
    · rintro ⟨kind, unnamed⟩
      exact Option.isSome_iff_ne_none.mpr (noValue kind unnamed)

namespace FunctionDef

variable {function : FunctionDef} {functions : List FunctionDef} {globals : List String}

/-- A statement of a checked body is checked with the locals before it. -/
theorem gives_checkBody_at {stmt : Stmt} {later : List Stmt} {middle : List Stmt} :
    ∀ (earlier : List Stmt) {locals : List String},
      Gives (function.checkBody functions globals locals earlier.length
        (middle ++ stmt :: later)) () → function.Declared earlier locals →
          ∃ locals after, function.Declared (earlier ++ middle) locals ∧
            Gives (Scope.checkStmt ⟨functions, globals, locals,
              ⟨function.name, (earlier ++ middle).length⟩⟩ function stmt) after := by
  induction middle with
  | nil =>
      intro earlier locals gives declared
      rw [List.nil_append, checkBody] at gives
      obtain ⟨after, here, -⟩ := gives.bind
      exact ⟨locals, after, by rwa [List.append_nil], by rwa [List.append_nil]⟩
  | cons first middle inductionHypothesis =>
      intro earlier locals gives declared
      rw [List.cons_append, checkBody] at gives
      obtain ⟨grown, here, rest⟩ := gives.bind
      have standing := inductionHypothesis (earlier ++ [first])
        (by rwa [List.length_append, List.length_singleton])
        (declared.next (Scope.locals_checkStmt here))
      rwa [List.append_assoc, List.singleton_append] at standing

/-- No name is declared twice in a checked body. -/
theorem nodup_of_checkBody {stmts : List Stmt} :
    ∀ (earlier : List Stmt) {locals : List String},
      Gives (function.checkBody functions globals locals earlier.length stmts) () →
        function.Declared earlier locals → (function.slotNames ++ declaredIn earlier).Nodup →
          (function.slotNames ++ declaredIn (earlier ++ stmts)).Nodup := by
  induction stmts with
  | nil =>
      intro earlier locals _ _ distinct
      rwa [List.append_nil]
  | cons stmt stmts inductionHypothesis =>
      intro earlier locals gives declared distinct
      rw [checkBody] at gives
      obtain ⟨grown, here, rest⟩ := gives.bind
      have distinct : (function.slotNames ++ declaredIn (earlier ++ [stmt])).Nodup := by
        rw [declaredIn_append, ← List.append_assoc, declaredIn_singleton]
        cases found : stmt.declared? with
        | none => simpa using distinct
        | some decl =>
            have fresh := (Scope.gives_checkStmt here).2 decl found
            rw [declared decl.name] at fresh
            exact distinct.append (List.nodup_singleton _) (List.disjoint_singleton.mpr fresh)
      have further := inductionHypothesis (earlier ++ [stmt])
        (by rwa [List.length_append, List.length_singleton])
        (declared.next (Scope.locals_checkStmt here)) distinct
      rwa [List.append_assoc, List.singleton_append] at further

theorem endsWithValue_of_checkEnd (gives : Gives function.checkEnd ())
    (unnamed : function.ResultUnnamed) : function.EndsWithValue := by
  obtain ⟨kind, unnamed⟩ := unnamed
  unfold checkEnd at gives
  rw [unnamed] at gives
  dsimp only at gives
  split at gives
  next ends =>
    unfold endsWithValue at ends
    split at ends
    next value last => exact ⟨value, last⟩
    next => cases ends
  next => exact absurd gives not_gives_refuse

end FunctionDef

namespace Program

variable {program : Program} {entry : String} {all : List String}

/-- An initialiser is checked with the globals before it. -/
theorem gives_checkGlobals_at {functions : List FunctionDef} {decl : VarDecl}
    {later middle : List VarDecl} :
    ∀ {names result : List String} {index : Nat},
      Gives (checkGlobals functions names index (middle ++ decl :: later)) result →
        Gives (Scope.checkInit ⟨functions, [], (middle.map (·.name)).reverse ++ names,
          ⟨globalsFrame, index + middle.length⟩⟩ decl) () := by
  induction middle with
  | nil =>
      intro names result index gives
      rw [List.nil_append, checkGlobals] at gives
      obtain ⟨_, here, -⟩ := gives.bind
      exact here
  | cons first middle inductionHypothesis =>
      intro names result index gives
      rw [List.cons_append, checkGlobals] at gives
      obtain ⟨_, -, gives⟩ := gives.bind
      obtain ⟨_, declared, gives⟩ := gives.bind
      obtain ⟨-, rfl⟩ := gives_declare declared
      have here := inductionHypothesis gives
      rwa [List.map_cons, List.reverse_cons, List.append_assoc, List.singleton_append,
        List.length_cons, ← Nat.succ_add_eq_add_succ]

/-- What the check of a passage has found out. -/
theorem Globals.passage (known : program.Globals all) {passage : Passage}
    (contains : program.Contains passage) :
    passage.variables ⊆ passage.visible ∧
      ∀ part ∈ passage.parts, part.Formed program.functions := by
  have globals (name : String) : name ∈ all ↔ name ∈ program.globals.map (·.name) := by
    rw [(gives_checkGlobals known.globals).1, List.append_nil, List.mem_reverse]
  cases contains with
  | @initialiser earlier later decl standing =>
      have gives := known.globals
      rw [standing] at gives
      have admits := Scope.gives_checkInit (gives_checkGlobals_at gives)
      refine ⟨fun name mentioned => ?_, fun part member =>
        Scope.formed_of_checkExpr (admits part member)⟩
      obtain ⟨part, member, found⟩ := List.mem_filterMap.mp mentioned
      have seen := Scope.sees_of_checkExpr (admits part member) found
      simpa [Scope.Sees, VarDecl.passage] using seen
  | @statement function earlier later stmt member standing =>
      obtain ⟨locals, slots, gives⟩ := (known.functions function member).bind
      obtain ⟨_, body, -⟩ := gives.bind
      rw [standing] at body
      obtain ⟨locals, after, declared, here⟩ :=
        FunctionDef.gives_checkBody_at [] body (FunctionDef.declared_of_checkSlots slots)
      refine ⟨fun name mentioned => ?_, Scope.formed_of_checkStmt here⟩
      rw [Stmt.variables_passage] at mentioned
      exact ((declared.reads globals).visible name).mpr
        (Scope.sees_of_checkStmt here name mentioned)

/-- Of a program that is refused at most for recursion every rule holds. -/
theorem Resolved.wellFormed (resolved : program.Resolved entry) : program.WellFormed entry := by
  obtain ⟨all, known⟩ := resolved.exists_globals
  refine
    { functions := (nodup_of_firstRepeated? resolved.unrepeated).1
      entry := ?_
      globals := ?_
      locals := ?_
      mentions := fun passage contains => (known.passage contains).1
      expressions := fun passage contains => (known.passage contains).2
      returns := ?_
      ends := ?_
      sites := resolved.nodup_sites }
  · obtain ⟨function, found, empty⟩ := entry_of_checkEntry resolved.entered
    exact ⟨function, List.mem_of_find?_eq_some found, by simpa using List.find?_some found, empty⟩
  · obtain ⟨same, distinct⟩ := gives_checkGlobals known.globals
    rw [List.append_nil] at same
    exact List.nodup_reverse.mp (same ▸ distinct .nil)
  · intro function member
    obtain ⟨locals, slots, gives⟩ := (known.functions function member).bind
    obtain ⟨_, body, -⟩ := gives.bind
    obtain ⟨same, distinct⟩ := FunctionDef.gives_checkSlots slots
    rw [List.append_nil] at same
    refine FunctionDef.nodup_of_checkBody [] body
      (FunctionDef.declared_of_checkSlots slots) ?_
    rw [show declaredIn [] = [] from rfl, List.append_nil]
    exact List.nodup_reverse.mp (same ▸ distinct .nil)
  · intro function member value returns
    obtain ⟨locals, slots, gives⟩ := (known.functions function member).bind
    obtain ⟨_, body, -⟩ := gives.bind
    obtain ⟨earlier, later, standing⟩ := List.append_of_mem returns
    rw [standing] at body
    obtain ⟨_, _, -, here⟩ :=
      FunctionDef.gives_checkBody_at [] body (FunctionDef.declared_of_checkSlots slots)
    exact FunctionDef.mayReturn_of_checkStmt here
  · intro function member unnamed
    obtain ⟨locals, -, gives⟩ := (known.functions function member).bind
    obtain ⟨_, -, ends⟩ := gives.bind
    exact FunctionDef.endsWithValue_of_checkEnd ends unnamed

/-- The check accepts a program, or refuses it only for a cycle of calls, exactly if the program is
well-formed. -/
theorem check_iff_wellFormed (program : Program) (entry : String) :
    (program.check entry = .ok () ∨
        ∃ function via, program.check entry = .error (.recursiveCall function via)) ↔
      program.WellFormed entry := by
  constructor
  · rintro (accepted | ⟨function, via, refused⟩)
    · exact (resolved_of_check accepted).1.wellFormed
    · rcases defect_of_check refused with defect | ⟨resolved, -⟩
      · exact absurd defect not_defect_recursiveCall
      · exact resolved.wellFormed
  · intro wellFormed
    cases decided : program.check entry with
    | ok _ => exact .inl rfl
    | error error =>
        rcases defect_of_check decided with defect | ⟨-, function, via, rfl⟩
        · exact absurd defect wellFormed.not_defect
        · exact .inr ⟨function, via, rfl⟩

end Program

end ReferenceSemantics

import Mathlib.Data.List.Nodup
import Mathlib.Data.List.ProdSigma
import ReferenceSemantics.Proofs.Escape.Introduced
import ReferenceSemantics.Proofs.Escape.Settled

set_option autoImplicit false

/-!
The classification ends in a fixpoint.

The findings about the sites and the parameters of a program are closed under its rules, so no
others are collected, and none is collected twice. The facts therefore stay below the bound of the
iteration, which ends because a round finds nothing new and for no other reason.
-/

namespace ReferenceSemantics

open EscapeRule Findings

/-- The sites of `new` expressions among some expressions are known. -/
def KnownParts (known : Set Loc) (parts : List Expr) : Prop :=
  ∀ init site, Expr.new init site ∈ parts → .site site ∈ known

theorem KnownParts.of_subset {known : Set Loc} {first second : List Expr}
    (parts : KnownParts known second) (inside : first ⊆ second) : KnownParts known first :=
  fun init site member => parts init site (inside member)

namespace Findings

/-- The findings about some locations. -/
def about (known : Set Loc) : Findings :=
  {finding | match finding with
    | .holds holder held => holder ∈ known ∧ held ∈ known
    | .escapes loc => loc ∈ known
    | .leaks function param => .content function param ∈ known}

variable {known locs : Set Loc} {names : String → Option Loc}

theorem about_subset_confined : about known ⊆ confined known := by
  intro finding inside
  cases finding with
  | holds holder held => exact inside.2
  | escapes loc => exact inside
  | leaks function param => trivial

theorem closure_about (inside : locs ⊆ known) : (about known).closure locs ⊆ known :=
  (closure_mono about_subset_confined subset_rfl).trans (closure_confined inside)

/-- With names that designate known locations, expressions make the addresses of known locations. -/
theorem introduced_subset (designated : ∀ {name loc}, names name = some loc → loc ∈ known)
    {exprs : List Expr} (parts : KnownParts known exprs) : introduced names exprs ⊆ known := by
  rintro loc (@⟨init, site, inside⟩ | @⟨_, _, _, _, _, found⟩)
  · exact parts init site inside
  · exact designated found

theorem carries_about (designated : ∀ {name loc}, names name = some loc → loc ∈ known)
    (expr : Expr) (parts : KnownParts known expr.parts) :
    carries (about known) names expr ⊆ known :=
  (carries_mono about_subset_confined expr).trans
    (carries_confined expr (introduced_subset designated parts))

/-- What an expression calls for is about the locations that its names and its sites are. -/
theorem Requires.mem_about (designated : ∀ {name loc}, names name = some loc → loc ∈ known)
    {mode : EscapeMode} {expr : Expr} {finding : Finding} (parts : KnownParts known expr.parts)
    (required : Requires (about known) names mode expr finding) : finding ∈ about known := by
  have held := (required.mono about_subset_confined).mem_confined
    (introduced_subset designated parts)
  cases required with
  | @new init site =>
      refine ⟨parts init site ?_, held⟩
      rw [Expr.parts]
      exact List.mem_cons_self ..
  | sliceLit | makeSlice | mapLit | call => exact held

end Findings

namespace EscapeScope

variable {known : Set Loc} {scope : EscapeScope}

/-- The locals in scope have known sites. -/
def Knows (known : Set Loc) (scope : EscapeScope) : Prop :=
  ∀ entry ∈ scope.locals, .site entry.2.1 ∈ known

theorem Knows.site? (knows : scope.Knows known) {name : String} {loc : Loc}
    (found : scope.site? name = some loc) : loc ∈ known := by
  rw [EscapeScope.site?, Option.map_eq_some_iff] at found
  obtain ⟨⟨site, kind⟩, found, rfl⟩ := found
  obtain ⟨before, after, split, -⟩ := List.lookup_eq_some_iff.mp found
  apply knows (name, site, kind)
  simp [split]

theorem inlineLocal?_mem (knows : scope.Knows known) {target : Place} {holder : Loc}
    (inline : scope.inlineLocal? target = some holder) : holder ∈ known := by
  unfold inlineLocal? at inline
  split at inline
  · split at inline
    · exact knows.site? inline
    · cases inline
  · cases inline

/-- What a statement calls for is about the locals in scope and the sites in the statement. -/
theorem Requires.mem_about (knows : scope.Knows known) {stmt : Stmt} {finding : Finding}
    (parts : KnownParts known stmt.parts)
    (declared : ∀ decl, stmt.declared? = some decl → .site (decl.siteId scope.function) ∈ known)
    (required : scope.Requires (about known) stmt finding) : finding ∈ about known := by
  have held := (required.mono about_subset_confined).mem_confined
    (introduced_subset knows.site? parts)
  cases required with
  | part inside required =>
      exact required.mem_about knows.site? (parts.of_subset (Stmt.parts_subset inside))
  | @declare decl => exact ⟨declared decl rfl, held⟩
  | assignLocal designated => exact ⟨knows.site? designated, held⟩
  | setFieldInline inline => exact ⟨inlineLocal?_mem knows inline, held⟩
  | assignGlobal | setFieldOutside | store | setIndex | setKey | append | ret => exact held
  | call required =>
      cases required with
      | call => exact held

end EscapeScope

namespace FunctionDef

variable {known : Set Loc} {function : FunctionDef}

theorem map_slots (function : FunctionDef) : function.slots.map (·.1) = function.slotNames := by
  rw [slots, slotNames, namedResult, List.map_append, List.map_map]
  congr 1
  cases function.result with
  | none => rfl
  | some result => cases named : result.name <;> simp [named]

theorem site_of_declared {stmt : Stmt} (member : stmt ∈ function.body) {decl : VarDecl}
    (found : stmt.declared? = some decl) : decl.siteId function.name ∈ function.sites := by
  apply List.mem_append_right
  refine List.mem_flatMap.mpr ⟨stmt, member, List.mem_append_left _ ?_⟩
  exact Option.mem_toList.mpr (Option.map_eq_some_iff.mpr ⟨decl, found, rfl⟩)

theorem site_of_part {stmt : Stmt} (member : stmt ∈ function.body) {init : Expr} {site : SiteId}
    (inside : .new init site ∈ stmt.parts) : site ∈ function.sites := by
  apply List.mem_append_right
  refine List.mem_flatMap.mpr ⟨stmt, member, List.mem_append_right _ ?_⟩
  exact List.mem_filterMap.mpr ⟨_, inside, rfl⟩

theorem slot_mem (sites : ∀ site ∈ function.sites, .site site ∈ known) {name : String}
    (member : name ∈ function.slotNames) : .site (defaultSite function.name name) ∈ known :=
  sites _ (List.mem_append_left _ (List.mem_map_of_mem member))

/-- The scopes in a function know the sites of the function. -/
theorem scopeAt_knows (sites : ∀ site ∈ function.sites, .site site ∈ known) (mode : EscapeMode)
    {before after : List Stmt} (split : function.body = before ++ after) :
    (function.scopeAt mode before).Knows known := by
  rw [scopeAt_eq]
  intro entry member
  rcases List.mem_append.mp (List.mem_reverse.mp member) with inSlots | inBody
  · obtain ⟨slot, listed, rfl⟩ := List.mem_map.mp inSlots
    exact slot_mem sites (function.map_slots ▸ List.mem_map_of_mem listed)
  · obtain ⟨stmt, earlier, declared⟩ := List.mem_filterMap.mp inBody
    obtain ⟨decl, found, rfl⟩ := Option.map_eq_some_iff.mp declared
    exact sites _ (site_of_declared (split ▸ List.mem_append_left _ earlier) found)

theorem scopeAt_function (function : FunctionDef) (mode : EscapeMode) (before : List Stmt) :
    (function.scopeAt mode before).function = function.name := by
  rw [scopeAt_eq]

end FunctionDef

namespace Program

variable {program : Program} {mode : EscapeMode} {facts : EscapeFacts}

theorem site_mem_locations {function : FunctionDef} (member : function ∈ program.functions) :
    ∀ site ∈ function.sites, .site site ∈ {loc | loc ∈ program.locations} := by
  intro site inSites
  apply List.mem_append_left
  apply List.mem_map_of_mem
  apply List.mem_append_right
  exact List.mem_flatMap.mpr ⟨function, member, inSites⟩

theorem content_mem_locations {function : FunctionDef} (member : function ∈ program.functions)
    {index : Nat} (bound : index < function.params.length) :
    .content function.name index ∈ program.locations := by
  apply List.mem_append_right
  apply List.mem_flatMap.mpr
  exact ⟨function, member, List.mem_map_of_mem (List.mem_range.mpr bound)⟩

theorem global_knownParts {decl : VarDecl} (member : decl ∈ program.globals) :
    KnownParts {loc | loc ∈ program.locations} decl.parts := by
  intro init site inside
  apply List.mem_append_left
  apply List.mem_map_of_mem
  apply List.mem_append_left
  exact List.mem_flatMap.mpr ⟨decl, member, List.mem_filterMap.mpr ⟨_, inside, rfl⟩⟩

/-- The findings about the locations of a program are closed under its rules. -/
theorem locations_closed (program : Program) (mode : EscapeMode) :
    program.Closed mode (about {loc | loc ∈ program.locations}) := by
  have unnamed {loc : Loc} (found : none = some loc) : loc ∈ {loc | loc ∈ program.locations} := by
    cases found
  intro finding entailed
  cases entailed with
  | globalInit member initial carried =>
      have parts := global_knownParts member
      rw [VarDecl.parts, initial] at parts
      exact carries_about unnamed _ parts carried
  | @globalPart decl part _ member inside required =>
      have whole : part ∈ (Stmt.declare decl).parts := inside
      exact required.mem_about unnamed
        ((global_knownParts member).of_subset (Stmt.parts_subset whole))
  | param member found =>
      refine ⟨FunctionDef.slot_mem (site_mem_locations member) (List.mem_append_left _ ?_), ?_⟩
      · exact List.mem_map_of_mem (List.mem_of_getElem? found)
      · exact content_mem_locations member (List.getElem?_eq_some_iff.mp found).1
  | content member bound =>
      exact ⟨content_mem_locations member bound, content_mem_locations member bound⟩
  | result member named held => exact held.2
  | @statement function before after stmt _ member split required =>
      have inBody : stmt ∈ function.body := split ▸ by simp
      have sites := site_mem_locations member
      refine required.mem_about (FunctionDef.scopeAt_knows sites mode split) ?_ ?_
      · exact fun init site inside => sites _ (FunctionDef.site_of_part inBody inside)
      · intro decl found
        rw [function.scopeAt_function]
        exact sites _ (FunctionDef.site_of_declared inBody found)
  | held reached => exact closure_about (fun _ escapes => escapes) reached
  | leak escapes => exact escapes

/-- Finitely many facts can be collected about finitely many locations. -/
theorem size_le_of_inside {locs : List Loc} (inside : facts.Inside (about {loc | loc ∈ locs}))
    (once : facts.Once) : facts.size ≤ locs.length * locs.length + locs.length := by
  have holds : facts.holds.length ≤ (locs ×ˢ locs).length := by
    apply once.holds.length_le_of_subset
    exact fun pair member => List.pair_mem_product.mpr (inside.holds member)
  have escaped : (facts.escaped.map (·.1)).length ≤ locs.length := by
    apply once.escaped.length_le_of_subset
    intro loc member
    obtain ⟨⟨_, reason⟩, inEscaped, rfl⟩ := List.mem_map.mp member
    exact inside.escapes ⟨reason, inEscaped⟩
  rw [List.length_product] at holds
  rw [List.length_map] at escaped
  exact Nat.add_le_add holds escaped

/-- A round finds facts about the locations of the program, none of them twice. -/
theorem classifierRound_inside (mode : EscapeMode) {classifier : Classifier}
    (inside : classifier.facts.Inside (about {loc | loc ∈ program.locations}))
    (once : classifier.facts.Once) :
    (program.classifierRound mode classifier).facts.Inside (about {loc | loc ∈ program.locations}) ∧
      (program.classifierRound mode classifier).facts.Once :=
  ⟨(escapeRules_within (program.locations_closed mode) inside _ inside).1,
    once_run (program.escapeRules mode classifier.facts) once⟩

theorem classifierFrom_fixed {classifier : Classifier}
    (inside : classifier.facts.Inside (about {loc | loc ∈ program.locations}))
    (once : classifier.facts.Once) :
    program.escapeRound mode (program.classifierFrom mode classifier).facts =
      (program.classifierFrom mode classifier).facts := by
  fun_induction classifierFrom program mode classifier with
  | case1 classifier next grows inductionHypothesis =>
      obtain ⟨later, onceLater⟩ := classifierRound_inside mode inside once
      exact inductionHypothesis later onceLater
  | case2 classifier next settled =>
      obtain ⟨later, onceLater⟩ := classifierRound_inside mode inside once
      have grown : classifier.facts.Le next.facts := le_run (program.escapeRules mode _) _
      have room : next.facts.size ≤ program.maxFacts := size_le_of_inside later onceLater
      have same : classifier.facts = next.facts := grown.eq_of_size (by omega)
      exact congrArg (program.escapeRound mode) same.symm

theorem escapeRound_escapeFacts (program : Program) (mode : EscapeMode) :
    program.escapeRound mode (program.escapeFacts mode) = program.escapeFacts mode :=
  classifierFrom_fixed (.empty _) .empty

theorem escapeFacts_inside (program : Program) (mode : EscapeMode) :
    (program.escapeFacts mode).Inside (about {loc | loc ∈ program.locations}) :=
  classifierFrom_inside (program.locations_closed mode) (.empty _)

/-- The rules find nothing new in the facts of the classification. -/
theorem escapeRules_settled (program : Program) (mode : EscapeMode) :
    Settled (program.escapeFacts mode) (program.escapeRules mode (program.escapeFacts mode)) () :=
  Prod.ext rfl (program.escapeRound_escapeFacts mode)

end Program

end ReferenceSemantics

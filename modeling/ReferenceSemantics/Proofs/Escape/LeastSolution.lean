import Mathlib.Data.Set.Finite.Lattice
import Mathlib.Order.Bounds.Defs
import ReferenceSemantics.Proofs.Escape.Classification
import ReferenceSemantics.Proofs.Escape.Saturation

set_option autoImplicit false

/-!
The classification computes the least solution of the rules.

Rules fire on a growing set of findings. As more is called for when more is known, it does not
matter which fire first: wherever firing ends, it ends in the least set that is closed under the
rules. The order of the globals and of the functions of a program has no part in the rules.
-/

namespace ReferenceSemantics

open Findings

namespace EscapeFacts

/-- The parameter leaks when its content escapes. -/
def leak? : Loc → Option Finding
  | .site _ => none
  | .content function param => some (.leaks function param)

def listed (facts : EscapeFacts) : List Finding :=
  let escaped := facts.escaped.map (·.1)
  facts.holds.map (fun pair => .holds pair.1 pair.2)
    ++ (escaped.map .escapes ++ escaped.filterMap leak?)

theorem findings_finite (facts : EscapeFacts) : facts.findings.Finite := by
  apply facts.listed.finite_toSet.subset
  have collected {loc : Loc} (escapes : facts.Escapes loc) : loc ∈ facts.escaped.map (·.1) := by
    obtain ⟨reason, member⟩ := escapes
    exact List.mem_map_of_mem member
  intro finding found
  cases finding with
  | holds holder held =>
      apply List.mem_append_left
      exact List.mem_map.mpr ⟨_, found, rfl⟩
  | escapes loc =>
      apply List.mem_append_right
      exact List.mem_append_left _ (List.mem_map_of_mem (collected found))
  | leaks function param =>
      apply List.mem_append_right
      exact List.mem_append_right _ (List.mem_filterMap.mpr ⟨_, collected found, rfl⟩)

end EscapeFacts

namespace Program

variable {program other : Program} {mode : EscapeMode} {known : Findings}

theorem escapeFacts_closed (program : Program) (mode : EscapeMode) :
    program.Closed mode (program.escapeFacts mode).findings :=
  closed_of_settled (program.escapeRules_settled mode)

/-! ### Firing in any order -/

namespace Fired

variable {first second : Findings}

/-- What has fired in one run can fire after what has fired in another. -/
theorem union (ofFirst : program.Fired mode first) (ofSecond : program.Fired mode second) :
    program.Fired mode (first ∪ second) := by
  induction ofSecond with
  | start => rwa [Set.union_empty]
  | @fire known more _ entailed inductionHypothesis =>
      rw [← Set.union_assoc]
      exact inductionHypothesis.fire fun finding member =>
        (entailed finding member).mono Set.subset_union_right

theorem insert {finding : Finding} (fired : program.Fired mode known)
    (entailed : program.Entails mode known finding) :
    program.Fired mode (known ∪ {finding}) :=
  fired.fire fun _ same => Set.mem_singleton_iff.mp same ▸ entailed

/-- Finitely many findings of separate runs are findings of one. -/
theorem covering {findings : Findings} (finite : findings.Finite)
    (each : ∀ finding ∈ findings, ∃ known, program.Fired mode known ∧ finding ∈ known) :
    ∃ known, program.Fired mode known ∧ findings ⊆ known := by
  induction findings, finite using Set.Finite.induction_on with
  | empty => exact ⟨∅, .start, subset_rfl⟩
  | insert _ _ inductionHypothesis =>
      obtain ⟨rest, ofRest, includes⟩ :=
        inductionHypothesis fun finding member => each finding (Set.mem_insert_of_mem _ member)
      obtain ⟨here, ofHere, found⟩ := each _ (Set.mem_insert _ _)
      refine ⟨here ∪ rest, ofHere.union ofRest, Set.insert_subset (.inl found) ?_⟩
      exact includes.trans Set.subset_union_right

end Fired

/-- All that rules can find by firing. -/
def fireable (program : Program) (mode : EscapeMode) : Findings :=
  {finding | ∃ known, program.Fired mode known ∧ finding ∈ known}

theorem fireable_subset_findings : program.fireable mode ⊆ (program.escapeFacts mode).findings :=
  fun _ ⟨_, fired, member⟩ => fired.subset (program.escapeFacts_closed mode) member

theorem fired_fireable (program : Program) (mode : EscapeMode) :
    program.Fired mode (program.fireable mode) := by
  have finite : (program.fireable mode).Finite :=
    (program.escapeFacts mode).findings_finite.subset fireable_subset_findings
  obtain ⟨known, fired, includes⟩ := Fired.covering finite fun _ found => found
  have same : known = program.fireable mode :=
    Set.Subset.antisymm (fun finding member => ⟨known, fired, member⟩) includes
  exact same ▸ fired

theorem fireable_closed : program.Closed mode (program.fireable mode) := by
  intro finding entailed
  exact ⟨_, (program.fired_fireable mode).insert entailed, .inr rfl⟩

/-- The classification can be had by firing rules. -/
theorem escapeFacts_fired (program : Program) (mode : EscapeMode) :
    program.Fired mode (program.escapeFacts mode).findings := by
  have same : program.fireable mode = (program.escapeFacts mode).findings :=
    Set.Subset.antisymm fireable_subset_findings (findings_subset_closed fireable_closed)
  exact same ▸ program.fired_fireable mode

theorem findings_eq_of_fired (fired : program.Fired mode known)
    (closed : program.Closed mode known) : known = (program.escapeFacts mode).findings :=
  Set.Subset.antisymm (fired.subset (program.escapeFacts_closed mode))
    (findings_subset_closed closed)

/-! ### The order of the declarations -/

/-- The same globals and functions, in any order. -/
structure Reordered (program other : Program) : Prop where
  globals : program.globals.Perm other.globals
  functions : program.functions.Perm other.functions

namespace Reordered

variable (reordered : program.Reordered other)

include reordered

theorem symm : other.Reordered program := ⟨reordered.globals.symm, reordered.functions.symm⟩

theorem sites : program.sites.Perm other.sites :=
  (reordered.globals.flatMap_right _).append (reordered.functions.flatMap_right _)

theorem entails {finding : Finding} (entailed : program.Entails mode known finding) :
    other.Entails mode known finding := by
  cases entailed with
  | globalInit member initial carried =>
      exact .globalInit (reordered.globals.mem_iff.mp member) initial carried
  | globalPart member inside required =>
      exact .globalPart (reordered.globals.mem_iff.mp member) inside required
  | param member found => exact .param (reordered.functions.mem_iff.mp member) found
  | content member bound => exact .content (reordered.functions.mem_iff.mp member) bound
  | result member named held => exact .result (reordered.functions.mem_iff.mp member) named held
  | statement member split required =>
      exact .statement (reordered.functions.mem_iff.mp member) split required
  | held reached => exact .held reached
  | leak escapes => exact .leak escapes

theorem closed (closed : program.Closed mode known) : other.Closed mode known :=
  fun finding entailed => closed finding (reordered.symm.entails entailed)

theorem findings_subset :
    (program.escapeFacts mode).findings ⊆ (other.escapeFacts mode).findings :=
  findings_subset_closed (reordered.symm.closed (other.escapeFacts_closed mode))

end Reordered

theorem findings_eq_of_reordered (reordered : program.Reordered other) (mode : EscapeMode) :
    (program.escapeFacts mode).findings = (other.escapeFacts mode).findings :=
  Set.Subset.antisymm reordered.findings_subset reordered.symm.findings_subset

/-! ### The placements -/

theorem get?_classify_eq_heap (program : Program) (mode : EscapeMode) (site : SiteId) :
    (program.classify mode).get? site = some .heap ↔
      .escapes (.site site) ∈ (program.escapeFacts mode).findings := by
  rw [get?_classify]
  constructor
  · intro placed
    apply EscapeFacts.escapes_iff_reason?.mpr
    split at placed
    next =>
      split at placed
      next reason => exact reason
      next => cases placed
    next => cases placed
  · intro escapes
    rw [if_pos (mem_sites_of_escapes escapes), if_pos (EscapeFacts.escapes_iff_reason?.mp escapes)]

theorem get?_classify_isSome (program : Program) (mode : EscapeMode) (site : SiteId) :
    ((program.classify mode).get? site).isSome ↔ site ∈ program.sites := by
  rw [get?_classify]
  split <;> simp [*]

theorem classify_table_of_reordered (reordered : program.Reordered other) (mode : EscapeMode) :
    (program.classify mode).table = (other.classify mode).table := by
  have sites (site : SiteId) : site ∈ program.sites ↔ site ∈ other.sites :=
    reordered.sites.mem_iff
  have escapes (site : SiteId) := Set.ext_iff.mp (findings_eq_of_reordered reordered mode)
    (.escapes (.site site))
  apply NameMap.eq_of_get?
  intro site
  have same : (program.classify mode).get? site = (other.classify mode).get? site := by
    rw [get?_classify, get?_classify]
    have reason := (EscapeFacts.escapes_iff_reason?.symm.trans (escapes site)).trans
      EscapeFacts.escapes_iff_reason?
    simp only [sites, reason]
  rw [Placements.table, Placements.table, NameMap.get?_mapValues, NameMap.get?_mapValues]
  exact same

/-- Where the rounds of the classification end, the findings are the least set closed under the
rules. Rules that fire in any order end there, and the declarations of the program may come in any
order too: the sites placed in the heap are those that escape by the least solution. -/
theorem escapeFacts_least (program : Program) (mode : EscapeMode) :
    program.escapeRound mode (program.escapeFacts mode) = program.escapeFacts mode ∧
      IsLeast {known | program.Closed mode known} (program.escapeFacts mode).findings ∧
      program.Fired mode (program.escapeFacts mode).findings ∧
      (∀ known, program.Fired mode known → program.Closed mode known →
        known = (program.escapeFacts mode).findings ∧
          ∀ site, (program.classify mode).get? site = some .heap ↔
            .escapes (.site site) ∈ known) ∧
      (∀ site, ((program.classify mode).get? site).isSome ↔ site ∈ program.sites) ∧
      ∀ other : Program, program.Reordered other →
        (program.escapeFacts mode).findings = (other.escapeFacts mode).findings ∧
          (program.classify mode).table = (other.classify mode).table := by
  refine ⟨program.escapeRound_escapeFacts mode,
    ⟨program.escapeFacts_closed mode, fun known closed => findings_subset_closed closed⟩,
    program.escapeFacts_fired mode, fun known fired closed => ?_, program.get?_classify_isSome mode,
    fun other reordered => ?_⟩
  · obtain rfl := findings_eq_of_fired fired closed
    exact ⟨rfl, program.get?_classify_eq_heap mode⟩
  · exact ⟨findings_eq_of_reordered reordered mode, classify_table_of_reordered reordered mode⟩

end Program

end ReferenceSemantics

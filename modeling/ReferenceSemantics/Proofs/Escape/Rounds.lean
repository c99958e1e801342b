import Mathlib.Data.List.Dedup
import ReferenceSemantics.Proofs.Escape.Fixpoint
import ReferenceSemantics.Proofs.Graph.Search

set_option autoImplicit false

/-!
The number of rounds that the classification takes.

Rounds follow each other until one finds nothing: no location that holds another, none that escapes
and no parameter that leaks. The facts relate the locations of the program, which are known
beforehand, and every round but the last adds one.
-/

namespace ReferenceSemantics

open EscapeRule Findings

/-- Facts without findings that others lack are no more than these. -/
theorem EscapeFacts.size_le_of_findings {facts later : EscapeFacts} (once : later.Once)
    (nothing : later.findings ⊆ facts.findings) : later.size ≤ facts.size := by
  have holds : later.holds ⊆ facts.holds :=
    fun pair member => nothing (show Finding.holds pair.1 pair.2 ∈ later.findings from member)
  have escaped : later.escaped.map (·.1) ⊆ facts.escaped.map (·.1) := by
    intro loc member
    obtain ⟨⟨_, reason⟩, inLater, rfl⟩ := List.mem_map.mp member
    have escapes : facts.Escapes _ :=
      nothing (show Finding.escapes _ ∈ later.findings from ⟨reason, inLater⟩)
    obtain ⟨other, present⟩ := escapes
    exact List.mem_map.mpr ⟨_, present, rfl⟩
  have fewer := once.escaped.length_le_of_subset escaped
  rw [List.length_map, List.length_map] at fewer
  exact Nat.add_le_add (once.holds.length_le_of_subset holds) fewer

namespace Program

/-- Rounds from some facts up to the first that finds nothing new: their number, and the facts in
the end. -/
inductive Rounds (program : Program) (mode : EscapeMode) : EscapeFacts → Nat → EscapeFacts → Prop
  | last {facts : EscapeFacts}
      (nothing : (program.escapeRound mode facts).findings ⊆ facts.findings) :
      Rounds program mode facts 1 (program.escapeRound mode facts)
  | again {facts ended : EscapeFacts} {rounds : Nat}
      (new : ¬ (program.escapeRound mode facts).findings ⊆ facts.findings)
      (rest : Rounds program mode (program.escapeRound mode facts) rounds ended) :
      Rounds program mode facts (rounds + 1) ended

/-- The number of distinct locations of a program. -/
def locationCount (program : Program) : Nat := program.locations.dedup.length

variable {program : Program} {mode : EscapeMode} {facts : EscapeFacts}

theorem size_le_locationCount (inside : facts.Inside (about {loc | loc ∈ program.locations}))
    (once : facts.Once) :
    facts.size ≤ program.locationCount * program.locationCount + program.locationCount := by
  have distinct : {loc | loc ∈ program.locations} = {loc | loc ∈ program.locations.dedup} := by
    simp only [List.mem_dedup]
  rw [distinct] at inside
  exact size_le_of_inside inside once

/-- Every round but the last adds a fact, and there is a bound on the facts. -/
theorem classifierFrom_rounds {classifier : Classifier}
    (inside : classifier.facts.Inside (about {loc | loc ∈ program.locations}))
    (once : classifier.facts.Once) :
    ∃ rounds,
      program.Rounds mode classifier.facts rounds (program.classifierFrom mode classifier).facts ∧
        rounds + classifier.facts.size ≤
          program.locationCount * program.locationCount + program.locationCount + 1 := by
  fun_induction classifierFrom program mode classifier with
  | case1 classifier next grows inductionHypothesis =>
      obtain ⟨later, onceLater⟩ := classifierRound_inside mode inside once
      obtain ⟨rounds, rest, bound⟩ := inductionHypothesis later onceLater
      have new : ¬ next.facts.findings ⊆ classifier.facts.findings := fun nothing =>
        absurd (EscapeFacts.size_le_of_findings onceLater nothing) (Nat.not_le.mpr grows.1)
      exact ⟨rounds + 1, .again new rest, by omega⟩
  | case2 classifier next settled =>
      obtain ⟨later, onceLater⟩ := classifierRound_inside mode inside once
      have grown : classifier.facts.Le next.facts := le_run (program.escapeRules mode _) _
      have room : next.facts.size ≤ program.maxFacts := size_le_of_inside later onceLater
      have same : classifier.facts = next.facts := grown.eq_of_size (by omega)
      have bound := size_le_locationCount inside once
      exact ⟨1, .last (Eq.subset (congrArg EscapeFacts.findings same.symm)), by omega⟩

end Program

namespace EscapeFacts

variable {facts : EscapeFacts} {locs : List Loc}

/-- The closure is what chains of locations that hold each other connect. -/
theorem mem_closure_iff {loc : Loc} :
    loc ∈ facts.closure locs ↔
      ∃ start ∈ locs,
        Relation.ReflTransGen (fun holder held => (holder, held) ∈ facts.holds) start loc := by
  constructor
  · intro found
    obtain ⟨-, start, member, chain⟩ := mem_reach_iff.mp found
    refine ⟨start, member, Relation.ReflTransGen.mono (fun _ _ edge => ?_) _ _ chain⟩
    exact mem_heldBy.mp edge.2
  · rintro ⟨start, member, chain⟩
    induction chain with
    | refl => exact mem_closure_of_mem member
    | tail _ edge inductionHypothesis =>
        exact mem_closure_of_heldBy inductionHypothesis (mem_heldBy.mpr edge)

/-- The locations that a search through `holds` may meet are listed in the facts. -/
theorem search_terminates (facts : EscapeFacts) (locs : List Loc) :
    Search.Terminates facts.heldBy (fun _ => True) ⟨[], locs⟩ := by
  have edges : ∀ holder, ∀ held ∈ facts.heldBy holder, True →
      held ∈ locs ++ facts.holds.map (·.2) := fun holder held edge _ =>
    List.mem_append_right _ (List.mem_map.mpr ⟨(holder, held), mem_heldBy.mp edge, rfl⟩)
  exact Search.terminates edges _ fun start member _ => List.mem_append_left _ member

theorem mem_found_iff {found : List Loc}
    (finds : Search.Finds facts.heldBy (fun _ => True) locs found) {loc : Loc} :
    loc ∈ found ↔ loc ∈ facts.closure locs := by
  rw [finds.exact.2, mem_closure_iff]
  constructor
  · rintro ⟨-, start, member, chain⟩
    refine ⟨start, member, Relation.ReflTransGen.mono (fun _ _ edge => ?_) _ _ chain⟩
    exact mem_heldBy.mp edge.2
  · rintro ⟨start, member, chain⟩
    refine ⟨trivial, start, member, Relation.ReflTransGen.mono (fun _ _ edge => ?_) _ _ chain⟩
    exact ⟨trivial, mem_heldBy.mpr edge⟩

end EscapeFacts

namespace Program

/-- The number of distinct contents of parameters. -/
def contentCount (program : Program) : Nat := program.contentTokens.dedup.length

/-- The classification of any program ends, within a number of rounds that its locations bound.
Each closure taken on the way ends too, whatever holds what: a search through the holders ends in
every order, and what it finds is connected to the locations that it starts from. -/
theorem rounds_bounded (program : Program) (mode : EscapeMode) :
    (∃ rounds, program.Rounds mode .empty rounds (program.escapeFacts mode) ∧
      rounds ≤ program.locationCount * program.locationCount + program.locationCount +
        program.contentCount + 1) ∧
      ∀ (facts : EscapeFacts) (locs : List Loc),
        Search.Terminates facts.heldBy (fun _ => True) ⟨[], locs⟩ ∧
          (∃ found, Search.Finds facts.heldBy (fun _ => True) locs found) ∧
          (∀ found, Search.Finds facts.heldBy (fun _ => True) locs found →
            found.Nodup ∧ ∀ loc, loc ∈ found ↔ loc ∈ facts.closure locs) ∧
          ∀ loc, loc ∈ facts.closure locs ↔ ∃ start ∈ locs,
            Relation.ReflTransGen (fun holder held => (holder, held) ∈ facts.holds) start loc := by
  refine ⟨?_, fun facts locs => ⟨facts.search_terminates locs, ?_, ?_, ?_⟩⟩
  · obtain ⟨rounds, ran, bound⟩ := @classifierFrom_rounds program mode ⟨.empty, []⟩ (.empty _) .empty
    exact ⟨rounds, ran, by omega⟩
  · exact (facts.search_terminates locs).finds
  · exact fun found finds => ⟨finds.exact.1, fun loc => EscapeFacts.mem_found_iff finds⟩
  · exact fun loc => EscapeFacts.mem_closure_iff

end Program

end ReferenceSemantics

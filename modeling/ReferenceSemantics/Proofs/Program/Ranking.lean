import Mathlib.Data.Finset.Card
import Mathlib.Data.Finset.Dedup
import ReferenceSemantics.Proofs.Program.Acceptance
import ReferenceSemantics.Proofs.Program.Cycles

set_option autoImplicit false

/-!
The calls of an accepted program go down.

The search for cycles puts a function on its list after the functions it calls. So the functions
below a name on the list include all that it leads to, and their number is lower for a callee than
for its caller.
-/

namespace ReferenceSemantics

/-- Numbers for the functions of a model that go down along every call. -/
structure Model.Ranking (model : Model) (rank : String → Nat) : Prop where
  bounded : ∀ {name function}, model.function? name = some function →
    rank name < model.functions.length
  descends : ∀ {name function callee other}, model.function? name = some function →
    callee ∈ function.callees → model.function? callee = some other → rank callee < rank name

namespace Program

variable {program : Program} {entry : String}

theorem callees?_callGraph (program : Program) (config : Config) (name : String) :
    program.callGraph.callees? name =
      ((Model.new program config).function? name).map FunctionDef.callees := by
  unfold callGraph CallGraph.callees? Model.function?
  rw [← List.map_reverse, List.find?_map, Option.map_map]
  rfl

/-- The calls of an accepted program can be ranked. -/
theorem exists_ranking (checked : program.check entry = .ok ()) (config : Config) :
    ∃ rank, (Model.new program config).Ranking rank := by
  obtain ⟨done, ordered, all⟩ := CallGraph.exists_ordered (resolved_of_check checked).2
  let names := (program.functions.map (·.name)).toFinset
  have mem_names : ∀ {name function},
      (Model.new program config).function? name = some function → name ∈ names := by
    intro name function found
    obtain ⟨member, named⟩ := of_function? found
    exact List.mem_toFinset.mpr (named ▸ List.mem_map_of_mem member)
  refine ⟨fun name => (names.filter (· ∈ CallGraph.below name done)).card, ?_, ?_⟩
  · intro name function found
    have outside : names.filter (· ∈ CallGraph.below name done) ⊂ names := by
      refine (Finset.filter_ssubset).mpr ⟨name, mem_names found, ?_⟩
      exact CallGraph.not_mem_below name done
    calc (names.filter (· ∈ CallGraph.below name done)).card
        < names.card := Finset.card_lt_card outside
      _ ≤ (program.functions.map (·.name)).length := List.toFinset_card_le _
      _ = program.functions.length := List.length_map ..
  · intro name function callee other found called defined
    have inDone : name ∈ done := by
      apply all
      obtain ⟨member, named⟩ := of_function? found
      rw [callGraph, List.map_map]
      exact List.mem_map.mpr ⟨function, member, named⟩
    have callees : program.callGraph.callees? name = some function.callees := by
      rw [callees?_callGraph program config, found]
      rfl
    have lower := ordered name inDone _ callees called
    apply Finset.card_lt_card
    refine Finset.ssubset_iff_subset_ne.mpr ⟨?_, ?_⟩
    · intro inner member
      obtain ⟨known, further⟩ := Finset.mem_filter.mp member
      exact Finset.mem_filter.mpr ⟨known, CallGraph.below_mono lower further⟩
    · intro same
      have member := Finset.mem_filter.mpr ⟨mem_names defined, lower⟩
      rw [← same] at member
      exact CallGraph.not_mem_below callee done (Finset.mem_filter.mp member).2

end Program

end ReferenceSemantics

import Mathlib
import ReferenceSemantics.Proofs.Escape.LeastSolution

set_option autoImplicit false

/-!
What a mode of the classification finds, the conservative one finds too.

The modes differ in the arguments that a call may retain, and in the conservative mode it may retain
any. So from the same findings the rules of any mode call for nothing that the conservative rules do
not call for. What is closed under these is closed under those, and the least solution of a mode is
within that of the conservative mode.
-/

namespace ReferenceSemantics

open Findings

theorem Findings.Retains.conservative {known : Findings} {mode : EscapeMode} {callee : String}
    {param : Nat} (_ : known.Retains mode callee param) :
    known.Retains .conservative callee param :=
  .inl rfl

namespace Program

variable {program : Program} {mode : EscapeMode} {known : Findings}

theorem Entails.conservative {finding : Finding} (entailed : program.Entails mode known finding) :
    program.Entails .conservative known finding := by
  cases entailed with
  | globalInit member initial carried => exact .globalInit member initial carried
  | globalPart member inside required =>
      exact .globalPart member inside (required.inMode Retains.conservative)
  | param member found => exact .param member found
  | content member bound => exact .content member bound
  | result member named held => exact .result member named held
  | @statement function before _ _ _ member split required =>
      rw [function.scopeAt_eq] at required
      refine .statement member split ?_
      rw [function.scopeAt_eq]
      exact required.inMode Retains.conservative .empty
  | held reached => exact .held reached
  | leak escapes => exact .leak escapes

theorem Closed.of_conservative (closed : program.Closed .conservative known)
    (mode : EscapeMode) : program.Closed mode known :=
  fun finding entailed => closed finding (Entails.conservative entailed)

theorem findings_subset_conservative (program : Program) (mode : EscapeMode) :
    (program.escapeFacts mode).findings ⊆ (program.escapeFacts .conservative).findings :=
  findings_subset_closed ((program.escapeFacts_closed .conservative).of_conservative mode)

/-- The interprocedural mode refines the conservative one, whatever the program. A site that it
places in the heap the conservative mode places there too, both modes place the same sites, and
where a parameter leaks, its content escapes in the conservative mode as well. -/
theorem classify_interprocedural_refines (program : Program) :
    (∀ site, (program.classify .interprocedural).get? site = some .heap →
      (program.classify .conservative).get? site = some .heap) ∧
    (program.classify .interprocedural).sites.keys = (program.classify .conservative).sites.keys ∧
    ∀ function param, (program.escapeFacts .interprocedural).leaks function param = true →
      (program.escapeFacts .conservative).Escapes (.content function param) := by
  have refines := program.findings_subset_conservative .interprocedural
  refine ⟨fun site heap => ?_, NameMap.keys_eq fun site => ?_, fun function param leaks => ?_⟩
  · rw [get?_classify_eq_heap] at heap ⊢
    exact refines heap
  · have listed (mode : EscapeMode) := program.get?_classify_isSome mode site
    simp only [Placements.get?, Option.isSome_map] at listed
    rw [listed, listed]
  · obtain ⟨⟨loc, reason⟩, escaped, same⟩ := List.any_eq_true.mp leaks
    obtain rfl : loc = .content function param := by simpa using same
    exact refines (show .escapes _ ∈ _ from ⟨reason, escaped⟩)

/-- A function that calls itself with its parameter and leaves it where it is. -/
def descendingProgram : Program :=
  ⟨[], [.new "main" []
      [.declare (.new "x" .value (some (.lit (.int 10)))), .call "down" [.addrOf (.var "x")]],
    .new "down" [⟨"p", .pointer⟩] [.store (.var "p") (.lit (.int 20)), .call "down" [.var "p"]]]⟩

example : (descendingProgram.classify .interprocedural).get? "main.x" = some .stack ∧
    (descendingProgram.classify .conservative).get? "main.x" = some .heap := by
  cbv

end Program

end ReferenceSemantics

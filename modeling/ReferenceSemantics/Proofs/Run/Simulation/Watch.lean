import ReferenceSemantics.Proofs.Run.Completion
import ReferenceSemantics.Proofs.Run.Simulation.Program

set_option autoImplicit false

/-!
Simulations of a run that is watched.

The left run stops where the watched call completes. The calls of the two runs agree as long as the
simulation leaves that end open.
-/

namespace ReferenceSemantics.Simulation

open Run

variable {sim : Simulation} {call : CompletedCall} {halt : Halt}

theorem watched_calls
    (opened : ∀ {world : sim.World} {depth : Nat} {callSite : Location} {machine' : Machine}
      {args' : List Value}, call.callSite = some callSite →
        sim.Related world call.before machine' →
        List.Forall₂ (sim.values world) call.args args' →
        exec (Evaluator.perform ⟨sim.left, sim.left.invokeUntil call halt depth⟩ call.function
          call.args callSite) call.before = (.ok call.result, call.after) →
        call.after.storage.Fits → sim.Open halt) :
    ∀ depth : Nat,
      sim.Calls ⟨sim.left, sim.left.invokeUntil call halt depth⟩
        ⟨sim.right, sim.right.invoke depth⟩ := by
  intro depth
  induction depth with
  | zero => exact ⟨rfl, rfl, fun _ _ _ => .throw trivial⟩
  | succ depth calls =>
      refine ⟨rfl, rfl, fun {world args args'} function callSite linked => ?_⟩
      intro machine machine' related
      have ended := perform_agrees calls function callSite linked machine machine' related
      dsimp only
      rw [exec_invokeUntil, Model.invoke]
      generalize reached : exec (Evaluator.perform _ function args callSite) machine = last at ended
      generalize exec (Evaluator.perform _ function args' callSite) machine' = last' at ended
      cases ended with
      | @overflow last last' full =>
          refine .overflow fun fits => full ?_
          obtain ⟨result, after⟩ := last
          cases result with
          | error _ => exact fits
          | ok _ =>
              dsimp only at fits
              split at fits <;> exact fits
      | left_open isOpen => exact .left_open isOpen
      | halted later valid related => exact .halted later valid related
      | @done value value' after after' later grown related' result =>
          dsimp only
          split
          next watched =>
            by_cases fits : after.storage.Fits
            · have before : call.before = machine := congrArg CompletedCall.before watched
              have passed : call.args = args := congrArg CompletedCall.args watched
              have ran : exec (Evaluator.perform ⟨sim.left, sim.left.invokeUntil call halt depth⟩
                  call.function call.args callSite) call.before =
                    (.ok call.result, call.after) := by
                rw [before, passed, congrArg CompletedCall.function watched,
                  congrArg CompletedCall.result watched, congrArg CompletedCall.after watched]
                exact reached
              have fitsAfter : call.after.storage.Fits := by
                rw [congrArg CompletedCall.after watched]
                exact fits
              exact .left_open (opened (congrArg CompletedCall.callSite watched)
                (before ▸ related) (passed ▸ linked) ran fitsAfter)
            · exact .overflow fits
          next => exact .done later grown related' result

end ReferenceSemantics.Simulation

import ReferenceSemantics.Proofs.Run.Progress

set_option autoImplicit false

/-!
Calls as computations in a frame.

A call is a computation between the push and the pop of its frame, and so is the run of the entry
function, whose end is also observed.
-/

namespace ReferenceSemantics

open Run

/-- Run a computation in a frame of its own. A computation that fails leaves the frame. -/
def Run.framed {α : Type} (function : String) (callSite : Option Location) (inside : Run α) :
    Run α := do
  pushFrame function callSite
  let result ← inside
  popFrame
  return result

/-- What a call does in its frame before the body. -/
def Model.open (model : Model) (function : FunctionDef) (args : List Value)
    (location : Location) : Run Unit := do
  transition function.name .entered
  model.bindSlots function args location
  transition function.name .executing

/-- What a call does in its frame after the body. -/
def FunctionDef.close (function : FunctionDef) (returned : Option Value) :
    Run (Option Value) := do
  transition function.name .returning
  function.copyOut returned

instance (model : Model) (function : FunctionDef) (args : List Value) (location : Location) :
    Stepwise (model.open function args location) := by
  unfold Model.open
  infer_instance

instance (function : FunctionDef) (returned : Option Value) :
    Stepwise (function.close returned) := by
  unfold FunctionDef.close
  infer_instance

namespace Evaluator

/-- What a call does in its frame; the state at the end of the body may be observed. -/
def inside (evaluator : Evaluator) (function : FunctionDef) (args : List Value)
    (location : Location) (observe : Run Unit) : Run (Option Value) := do
  evaluator.model.open function args location
  let returned ← evaluator.executeBody function
  observe
  function.close returned

theorem perform_eq (evaluator : Evaluator) (function : FunctionDef) (args : List Value)
    (callSite : Location) :
    evaluator.perform function args callSite = (do
      let result ← framed function.name (some callSite)
        (evaluator.inside function args callSite (pure ()))
      transition function.name .exited
      return result) := by
  simp only [perform, Model.enter, FunctionDef.leave, framed, inside, Model.open,
    FunctionDef.close, bind_assoc, pure_bind, Option.getD_some]

theorem runEntry_eq (evaluator : Evaluator) (entry : FunctionDef) :
    evaluator.runEntry entry = (do
      let result ← framed entry.name none
        (evaluator.inside entry [] ⟨entry.name, 0⟩ (do capture; Run.sweep))
      transition entry.name .exited
      return result) := by
  simp only [runEntry, Model.enter, FunctionDef.leave, framed, inside, Model.open,
    FunctionDef.close, bind_assoc, pure_bind, Option.getD_none]

instance (evaluator : Evaluator) [evaluator.Stepwise] (function : FunctionDef)
    (args : List Value) (location : Location) (observe : Run Unit) [Run.Stepwise observe] :
    Run.Stepwise (evaluator.inside function args location observe) := by
  unfold inside
  infer_instance

end Evaluator

instance {α : Type} (function : String) (callSite : Option Location) (run : Run α)
    [Stepwise run] : Stepwise (framed function callSite run) := by
  unfold framed
  infer_instance

/-- A call that returned has run its inside in the new frame, and popped the frame. -/
theorem framed_returned {function : String} {callSite : Option Location}
    {inside : Run (Option Value)} {machine after : Machine} {result : Option Value}
    (returned : exec (do
      let result ← framed function callSite inside
      transition function .exited
      return result) machine = (.ok result, after)) :
    ∃ last, exec inside
        { machine with storage := machine.storage.pushFrame function callSite } =
          (.ok result, last) ∧ after.storage = last.storage.popFrame := by
  simp only [framed, pushFrame, popFrame, exec_bind, exec_modify, exec_pure] at returned
  generalize exec inside _ = reached at returned ⊢
  obtain ⟨outcome, last⟩ := reached
  cases outcome with
  | error _ => cases returned
  | ok value =>
      dsimp only at returned
      obtain ⟨trace, exited⟩ := Run.silent_transition function .exited
        { last with storage := last.storage.popFrame }
      rw [exited] at returned
      cases returned
      exact ⟨last, rfl, rfl⟩

end ReferenceSemantics

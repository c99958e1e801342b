import ReferenceSemantics.Proofs.Run.Alike
import ReferenceSemantics.Proofs.Run.Completion

set_option autoImplicit false

/-!
Executed calls are calls of the run.

A run that stops where a watched call completes goes as the run itself up to there. So a call that
is executed was performed: its function, started on its arguments in the machine before it, returned
its result and left the machine after it.
-/

namespace ReferenceSemantics

open Run

/-- The model runs the call below the entry function, with some number of calls still to nest. -/
def CompletedCall.Performed (call : CompletedCall) (model : Model) : Prop :=
  ∃ callSite depth, call.callSite = some callSite ∧
    (∃ name, model.function? name = some call.function) ∧
    exec (Evaluator.perform ⟨model, model.invoke depth⟩ call.function call.args callSite)
      call.before = (.ok call.result, call.after)

variable {model : Model} {call : CompletedCall} {α β : Type}

/-- The watched computation ends as the other one, unless the call was performed. -/
def Follows (model : Model) (call : CompletedCall) (watched run : Run α) : Prop :=
  ∀ machine, call.Performed model ∨ exec watched machine = exec run machine

namespace Follows

theorem refl (run : Run α) : Follows model call run run := fun _ => .inr rfl

theorem bind {watched run : Run α} {next next' : α → Run β} (start : Follows model call watched run)
    (rest : ∀ value, Follows model call (next value) (next' value)) :
    Follows model call (watched >>= next) (run >>= next') := by
  intro machine
  rcases start machine with performed | same
  · exact .inl performed
  · rw [exec_bind, exec_bind, same]
    generalize exec run machine = reached
    obtain ⟨result, middle⟩ := reached
    cases result with
    | error halt => exact .inr rfl
    | ok value => exact rest value middle

/-- The calls of the watched run follow those of the other one. -/
def Calls (model : Model) (call : CompletedCall) (watched invoke : Invocation) : Prop :=
  ∀ name function, model.function? name = some function → ∀ args location,
    Follows model call (watched function args location) (invoke function args location)

theorem of_alike {pairing : Pairing} {watched run : Run α} (alike : pairing.Alike watched run)
    (calls : Calls pairing.model call pairing.invoke pairing.invoke') :
    Follows pairing.model call watched run := by
  induction alike with
  | bind start rest startFollows restFollows => exact .bind startFollows restFollows
  | call permitted found evaluated complete evaluatedFollows =>
      exact .bind evaluatedFollows fun values => calls _ _ found values _
  | quiet | lookup | declare | checkpoint | transition | capture => exact .refl _

/-- What follows in a frame follows as a call. -/
theorem exited {function : String} {callSite : Option Location}
    {watched inside : Run (Option Value)} (follows : Follows model call watched inside) :
    Follows model call
      (do
        let result ← framed function callSite watched
        transition function .exited
        return result)
      (do
        let result ← framed function callSite inside
        transition function .exited
        return result) := by
  unfold framed
  refine .bind ?_ fun _ => .refl _
  exact .bind (.refl _) fun _ => follows.bind fun _ => .refl _

theorem inside {watched invoke : Invocation} (calls : Calls model call watched invoke)
    (function : FunctionDef) (args : List Value) (location : Location) {observe : Run Unit}
    (observed : ∀ pairing : Pairing, pairing.steps → pairing.Alike observe observe) :
    Follows model call (Evaluator.inside ⟨model, watched⟩ function args location observe)
      (Evaluator.inside ⟨model, invoke⟩ function args location observe) := by
  let pairing : Pairing :=
    ⟨model, watched, invoke, fun _ _ => True, fun _ => True, True⟩
  have admits : pairing.AdmitsCall function :=
    ⟨trivial, fun _ _ => trivial, fun _ _ => trivial⟩
  exact of_alike (pairing.inside_alike admits args location (observed pairing trivial)) calls

theorem perform {watched invoke : Invocation} (calls : Calls model call watched invoke)
    (function : FunctionDef) (args : List Value) (callSite : Location) :
    Follows model call (Evaluator.perform ⟨model, watched⟩ function args callSite)
      (Evaluator.perform ⟨model, invoke⟩ function args callSite) := by
  rw [Evaluator.perform_eq, Evaluator.perform_eq]
  exact (inside calls function args callSite fun _ _ => .pure ()).exited

/-- Up to the watched call, calls go as without a watch. -/
theorem invokeUntil (model : Model) (call : CompletedCall) (halt : Halt) (depth : Nat) :
    Calls model call (model.invokeUntil call halt depth) (model.invoke depth) := by
  induction depth with
  | zero => exact fun _ _ _ _ _ => .refl _
  | succ depth calls =>
      intro name function found args callSite machine
      rcases perform calls function args callSite machine with performed | same
      · exact .inl performed
      · rw [exec_invokeUntil, same, Model.invoke]
        generalize reached : exec (Evaluator.perform ⟨model, model.invoke depth⟩ function args
          callSite) machine = last
        obtain ⟨result, after⟩ := last
        cases result with
        | error other => exact .inr rfl
        | ok result =>
            dsimp only
            split
            next watched =>
              subst watched
              exact .inl ⟨callSite, depth, rfl, ⟨name, found⟩, reached⟩
            next => exact .inr rfl

theorem run {watched invoke : Invocation} (calls : Calls model call watched invoke) :
    Follows model call (Evaluator.run ⟨model, watched⟩) (Evaluator.run ⟨model, invoke⟩) := by
  let pairing : Pairing :=
    ⟨model, watched, invoke, fun _ _ => True, fun _ => True, True⟩
  have admits : ∀ decl ∈ model.globals, ∀ location, pairing.AdmitsAll location decl.parts :=
    fun _ _ _ _ _ => ⟨fun _ _ => trivial, fun _ _ => trivial⟩
  have globals := pairing.declareGlobals_alike trivial 0 admits
  have entered (entry : FunctionDef) :
      Follows model call (Evaluator.runEntry ⟨model, watched⟩ entry)
        (Evaluator.runEntry ⟨model, invoke⟩ entry) := by
    rw [Evaluator.runEntry_eq, Evaluator.runEntry_eq]
    refine (inside calls entry [] ⟨entry.name, 0⟩ fun pairing steps => ?_).exited
    exact (Pairing.Alike.capture steps).bind fun _ => .quiet _
  unfold Evaluator.run
  refine (of_alike globals calls).bind fun _ => .bind (.refl _) fun entry => ?_
  exact (entered entry).bind fun _ => .refl _

end Follows

/-- A call below the entry function is executed only if it is performed: a run that never came to
it would end the same however it is told to stop. -/
theorem CompletedCall.performed {start : Machine}
    (stopped : ∀ halt, exec (Evaluator.run ⟨model,
      model.invokeUntil call halt model.maxCallDepth⟩) start = (.error halt, call.after)) :
    call.Performed model := by
  have follows (halt : Halt) :=
    Follows.run (Follows.invokeUntil model call halt model.maxCallDepth) start
  rcases follows .callDepthExceeded with performed | exceeded
  · exact performed
  · rcases follows (.aborted default) with performed | aborted
    · exact performed
    · rw [stopped] at exceeded aborted
      cases exceeded.trans aborted.symm

end ReferenceSemantics

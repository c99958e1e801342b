import ReferenceSemantics.Proofs.Run.Ending

set_option autoImplicit false

/-!
The calls that a run begins and executes.

A call that returned is watched by a run that stops where the call completes. The run goes as
before up to there, so the call is executed exactly when the run stops at it in whatever way it is
told to stop. The beginning of a call is watched likewise.
-/

namespace ReferenceSemantics

/-- A call that returned, with the machine before its frame was pushed and after it was popped. -/
structure CompletedCall where
  function : FunctionDef
  args : List Value
  /-- Absent for the call of the entry function. -/
  callSite : Option Location
  before : Machine
  result : Option Value
  after : Machine

open Classical in
/-- Calls as without a watch, except that the run stops where the watched call completes. -/
noncomputable def Model.invokeUntil (model : Model) (watched : CompletedCall) (halt : Halt) :
    (depth : Nat) → FunctionDef → List Value → Location → Run (Option Value)
  | 0, _, _, _ => throw .callDepthExceeded
  | depth + 1, function, args, callSite => do
      let before ← get
      let result ← Evaluator.perform ⟨model, model.invokeUntil watched halt depth⟩
        function args callSite
      let after ← get
      if watched = ⟨function, args, some callSite, before, result, after⟩ then throw halt
      else return result

open Run in
/-- A call is executed: below the entry function, or as the call of the entry function itself. -/
inductive Simulator.Executes (simulator : Simulator) : CompletedCall → Prop where
  | nested (call : CompletedCall)
      (stopped : ∀ halt, exec (Evaluator.run ⟨simulator.model,
        simulator.model.invokeUntil call halt simulator.model.maxCallDepth⟩) simulator.machine =
          (.error halt, call.after)) : Executes simulator call
  | entry (function : FunctionDef) (before : Machine) (result : Option Value) (after : Machine)
      (globals : exec (simulator.model.evaluator.declareGlobals 0 simulator.model.globals)
        simulator.machine = (.ok (), before))
      (found : simulator.model.function? simulator.model.config.entry = some function)
      (ran : exec (simulator.model.evaluator.runEntry function) before = (.ok result, after)) :
      Executes simulator ⟨function, [], none, before, result, after⟩

/-- A call whose arguments are evaluated, with the machine before its frame is pushed. -/
structure StartedCall where
  function : FunctionDef
  args : List Value
  callSite : Location
  before : Machine

open Classical in
/-- Calls as without a watch, except that the run stops where the watched call begins. -/
noncomputable def Model.invokeBefore (model : Model) (watched : StartedCall) (halt : Halt) :
    (depth : Nat) → FunctionDef → List Value → Location → Run (Option Value)
  | 0, _, _, _ => throw .callDepthExceeded
  | depth + 1, function, args, callSite => do
      let before ← get
      if watched = ⟨function, args, callSite, before⟩ then throw halt
      else Evaluator.perform ⟨model, model.invokeBefore watched halt depth⟩ function args callSite

open Run in
/-- A call below the entry function begins. -/
def Simulator.Begins (simulator : Simulator) (call : StartedCall) : Prop :=
  ∀ halt, exec (Evaluator.run ⟨simulator.model,
    simulator.model.invokeBefore call halt simulator.model.maxCallDepth⟩) simulator.machine =
      (.error halt, call.before)

namespace Run

open Classical in
theorem exec_invokeUntil (model : Model) (watched : CompletedCall) (halt : Halt) (depth : Nat)
    (function : FunctionDef) (args : List Value) (callSite : Location) (machine : Machine) :
    exec (model.invokeUntil watched halt (depth + 1) function args callSite) machine =
      match exec (Evaluator.perform ⟨model, model.invokeUntil watched halt depth⟩
        function args callSite) machine with
      | (.ok result, after) =>
          if watched = ⟨function, args, some callSite, machine, result, after⟩ then
            (.error halt, after)
          else (.ok result, after)
      | (.error other, after) => (.error other, after) := by
  rw [Model.invokeUntil, exec_bind, exec_get]
  dsimp only
  rw [exec_bind]
  generalize exec (Evaluator.perform _ function args callSite) machine = last
  obtain ⟨result, after⟩ := last
  cases result with
  | error other => rfl
  | ok result =>
      dsimp only
      rw [exec_bind, exec_get]
      dsimp only
      split <;> rfl

instance invokeUntil_stepwise (model : Model) (watched : CompletedCall) (halt : Halt) :
    ∀ depth : Nat, Evaluator.Stepwise ⟨model, model.invokeUntil watched halt depth⟩
  | 0 => ⟨fun _ _ _ => inferInstanceAs (Stepwise (throw Halt.callDepthExceeded))⟩
  | depth + 1 => by
      have := invokeUntil_stepwise model watched halt depth
      refine ⟨fun function args callSite => ⟨fun machine => ?_⟩⟩
      have steps := Run.steps (Evaluator.perform ⟨model, model.invokeUntil watched halt depth⟩
        function args callSite) machine
      rw [exec_invokeUntil]
      generalize exec (Evaluator.perform _ function args callSite) machine = last at steps
      obtain ⟨result, after⟩ := last
      cases result with
      | error _ => exact steps
      | ok _ =>
          dsimp only
          split <;> exact steps

open Classical in
theorem exec_invokeBefore (model : Model) (watched : StartedCall) (halt : Halt) (depth : Nat)
    (function : FunctionDef) (args : List Value) (callSite : Location) (machine : Machine) :
    exec (model.invokeBefore watched halt (depth + 1) function args callSite) machine =
      if watched = ⟨function, args, callSite, machine⟩ then (.error halt, machine)
      else exec (Evaluator.perform ⟨model, model.invokeBefore watched halt depth⟩
        function args callSite) machine := by
  rw [Model.invokeBefore, exec_bind, exec_get]
  dsimp only
  split <;> rfl

instance invokeBefore_stepwise (model : Model) (watched : StartedCall) (halt : Halt) :
    ∀ depth : Nat, Evaluator.Stepwise ⟨model, model.invokeBefore watched halt depth⟩
  | 0 => ⟨fun _ _ _ => inferInstanceAs (Stepwise (throw Halt.callDepthExceeded))⟩
  | depth + 1 => by
      have := invokeBefore_stepwise model watched halt depth
      refine ⟨fun function args callSite => ⟨fun machine => ?_⟩⟩
      rw [exec_invokeBefore]
      split
      · exact .refl
      · exact Run.steps _ machine

end Run

end ReferenceSemantics

import ReferenceSemantics.Proofs.Run.Interruption

set_option autoImplicit false

/-!
Computations under two signals.

A computation that passes no statement boundary neither reads the abort signal nor changes it. At a
boundary a signal with a limit stops the run, or it stays behind a signal that lets more boundaries
pass.
-/

namespace ReferenceSemantics

open Run AbortSignal

/-- The first signal has a limit, and the second lets at least one boundary more pass. -/
def AbortSignal.Ahead (signal signal' : AbortSignal) : Prop :=
  ∃ left, signal.left = some left ∧ signal'.Allows (left + 1)

/-- At a boundary the first signal stops the run or stays behind. -/
theorem AbortSignal.Ahead.tick {signal signal' : AbortSignal} (ahead : Ahead signal signal') :
    signal'.tick.raised = false ∧
      (signal.tick.raised = true ∨
        signal.tick.raised = false ∧ Ahead signal.tick signal'.tick) := by
  obtain ⟨left, found, allows⟩ := ahead
  rw [Nat.add_comm] at allows
  obtain ⟨spent', lowered'⟩ := tick_of_allows allows.before
  refine ⟨lowered', ?_⟩
  cases left with
  | zero => exact .inl (tick_of_left found)
  | succ left =>
      have more : signal.Allows 1 := by
        intro other same
        obtain rfl := Option.some.inj (found.symm.trans same)
        exact Nat.succ_pos left
      obtain ⟨spent, lowered⟩ := tick_of_allows more
      refine .inr ⟨lowered, left, ?_, ?_⟩
      · rw [spent, left_spend more, found]
        rfl
      · rw [spent']
        exact allows.after

namespace Run

/-- Count a boundary, and stop the run there if the signal says so. -/
def pause (location : Location) : Run Unit := do
  modify fun machine => { machine with abort := machine.abort.tick }
  if (← get).abort.raised then throw (.aborted location)

theorem exec_pause (location : Location) (machine : Machine) :
    exec (pause location) machine =
      (if machine.abort.tick.raised then .error (.aborted location) else .ok (),
        { machine with abort := machine.abort.tick }) := by
  simp only [pause, exec_bind, exec_modify, exec_get]
  split <;> rfl

/-- What a boundary adds is that it is recorded. -/
theorem checkpoint_eq (location : Location) :
    checkpoint location = (do
      pause location
      record (.statement location)) := by
  have same (machine : Machine) : exec (checkpoint location) machine =
      exec (pause location >>= fun _ => record (.statement location)) machine := by
    simp only [checkpoint, pause, exec_bind, exec_modify, exec_get]
    split <;> rfl
  exact funext same

end Run

/-- A computation that passes no boundary. -/
def Unstopped {α : Type} (run : Run α) : Prop :=
  ∀ storage trace finals, ∃ result changed trace' finals',
    (∀ location, result ≠ .error (.aborted location)) ∧
      ∀ signal, exec run ⟨storage, trace, signal, finals⟩ =
        (result, ⟨changed, trace', signal, finals'⟩)

namespace Unstopped

variable {α : Type} {location : Location}

theorem fail (error : RuntimeError) : Unstopped (fail error : Run α) :=
  fun storage trace finals =>
    ⟨.error (.error error), storage, trace, finals, unaborted_error, fun _ => rfl⟩

theorem exceeded : Unstopped (throw .callDepthExceeded : Run α) := by
  intro storage trace finals
  refine ⟨.error .callDepthExceeded, storage, trace, finals, ?_, fun _ => rfl⟩
  rintro location ⟨⟩

theorem quiet (run : Run α) [Quiet run] : Unstopped run := by
  intro storage trace finals
  obtain ⟨result, changed, events, reaction⟩ := Run.reacts run storage
  refine ⟨_, changed, _, finals, ?_, fun signal => reaction.ran trace signal finals⟩
  cases result with
  | ok value => exact unaborted_ok
  | error error => exact unaborted_error

theorem lookup (name : String) : Unstopped (lookup name location) := by
  intro storage trace finals
  cases found : storage.lookup name with
  | some ref =>
      refine ⟨.ok ref, storage, trace, finals, unaborted_ok, fun signal => ?_⟩
      rw [exec_lookup, found]
  | none =>
      refine ⟨.error (.error (.undefinedVariable name location)), storage, trace, finals,
        unaborted_error, fun signal => ?_⟩
      rw [exec_lookup, found]

theorem allocate (change : Storage → α × Storage) : Unstopped (allocate change) :=
  fun storage trace finals =>
    ⟨.ok (change storage).1, (change storage).2, trace, finals, unaborted_ok, fun _ => rfl⟩

theorem record (event : TraceEvent) : Unstopped (record event) := fun storage trace finals =>
  ⟨.ok (), storage, trace.record event, finals, unaborted_ok, fun _ => rfl⟩

theorem transition (function : String) (state : CallState) :
    Unstopped (transition function state) :=
  fun storage trace finals =>
    ⟨.ok (), storage, trace.record (.call function state (storage.depth - 1)), finals,
      unaborted_ok, fun _ => rfl⟩

theorem capture : Unstopped capture := fun storage trace _ =>
  ⟨.ok (), storage, trace, captured storage, unaborted_ok, fun _ => rfl⟩

theorem pushFrame (function : String) (callSite : Option Location) :
    Unstopped (pushFrame function callSite) := fun storage trace finals =>
  ⟨.ok (), storage.pushFrame function callSite, trace, finals, unaborted_ok, fun _ => rfl⟩

theorem popFrame : Unstopped popFrame := fun storage trace finals =>
  ⟨.ok (), storage.popFrame, trace, finals, unaborted_ok, fun _ => rfl⟩

end Unstopped

end ReferenceSemantics

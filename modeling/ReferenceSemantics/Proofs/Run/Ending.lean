import ReferenceSemantics.Proofs.Run.Progress

set_option autoImplicit false

/-!
What can be seen of a first run.

The host may set the abort signal before a run. A budget of `n` boundaries stops the run at the
next one, so the endings under all signals show the machine at every statement boundary, at the end
of the run and where a run fails.
-/

namespace ReferenceSemantics

namespace Simulator

/-- A fresh simulator whose host has set the abort signal. -/
def signalled (program : Program) (config : Config) (signal : AbortSignal) : Simulator :=
  (new program config).modifySignal fun _ => signal

/-- How the program ends, and the machine at that moment: nothing is captured or discarded yet. -/
def ending (simulator : Simulator) : Except Halt Unit × Machine :=
  Run.exec simulator.model.execute simulator.machine

/-- The simulator with an empty trace that has room for so many events. -/
def keeping (simulator : Simulator) (limit : Nat) : Simulator :=
  { simulator with machine := { simulator.machine with trace := .new limit } }

/-- What is made of the end of a program. -/
def conclude (simulator : Simulator) :
    Except Halt Unit × Machine → Except SimulationError Verdict × Simulator
  | (.ok (), machine) =>
      let ended := { simulator with machine, finished := true }
      (.ok ended.verdict, ended)
  | (.error (.error (.fault cause location)), machine) =>
      let ended := { simulator with
        machine := (Run.exec (panicked cause location) machine).2
        panics := simulator.panics ++ [⟨cause.kind, location⟩]
        finished := true }
      (.ok ended.verdict, ended)
  | (.error (.aborted _), machine) =>
      (.error .aborted, { simulator with machine := discard machine })
  | (.error (.error error), machine) => (.error (.runtime error), { simulator with machine })
  | (.error .callDepthExceeded, machine) =>
      (.error .callDepthExceeded, { simulator with machine })

theorem run_eq_conclude {simulator : Simulator} (unfinished : simulator.finished = false) :
    simulator.run = simulator.conclude simulator.ending := by
  obtain ⟨model, start, panics, finished⟩ := simulator
  obtain rfl : finished = false := unfinished
  have ended : model.execute.run.run start = ending ⟨model, start, panics, false⟩ := rfl
  rw [run, if_neg Bool.false_ne_true, ended]
  obtain ⟨result, machine⟩ := ending ⟨model, start, panics, false⟩
  cases result with
  | ok _ => rfl
  | error halt =>
      cases halt with
      | error error => cases error <;> rfl
      | _ => rfl

theorem model_conclude (simulator : Simulator) (ended : Except Halt Unit × Machine) :
    (simulator.conclude ended).2.model = simulator.model := by
  unfold conclude
  split <;> rfl

theorem exec_panicked (cause : Fault) (location : Location) (machine : Machine) :
    (Run.exec (panicked cause location) machine).2.storage = machine.storage.sweep.2 := by
  unfold panicked Run.sweep
  simp only [Run.exec_bind, Run.exec_record, Run.capture, Run.exec_modify, Run.exec_allocate]
  split <;> rfl

theorem faults_panicked {cause : Fault} {location : Location} {machine : Machine} {kind : FaultKind}
    (recorded : kind ∈ (Run.exec (panicked cause location) machine).2.trace.faults) :
    kind ∈ machine.trace.faults ∨ kind = cause.kind := by
  unfold panicked at recorded
  rw [Run.exec_bind, Run.exec_record] at recorded
  dsimp only at recorded
  rw [Run.Stepwise.faults_eq, Trace.record] at recorded
  split at recorded
  · simpa [Trace.faults, TraceEvent.faultKind?] using recorded
  · exact .inl recorded

/-- A run leaves the machine of its end; a fault is made known to it and an abort discards it. -/
theorem machine_run {simulator : Simulator} (fresh : simulator.finished = false) :
    let machine := simulator.ending.2
    simulator.run.2.machine = machine ∨
      (∃ cause location,
        simulator.run.2.machine = (Run.exec (panicked cause location) machine).2) ∨
      simulator.run.2.machine = discard machine := by
  rw [run_eq_conclude fresh]
  obtain ⟨result, machine⟩ := simulator.ending
  cases result with
  | ok _ => exact .inl rfl
  | error halt =>
      cases halt with
      | aborted location => exact .inr (.inr rfl)
      | callDepthExceeded => exact .inl rfl
      | error error =>
          cases error with
          | fault cause location => exact .inr (.inl ⟨cause, location, rfl⟩)
          | _ => exact .inl rfl

/-- A run leaves the storage of its end; a fault sweeps it and an abort discards it. -/
theorem storage_of_unfinished {simulator : Simulator} (fresh : simulator.finished = false) :
    let storage := simulator.ending.2.storage
    simulator.run.2.storage = storage ∨ simulator.run.2.storage = storage.sweep.2 ∨
      simulator.run.2.storage = .empty := by
  intro storage
  rcases machine_run fresh with same | ⟨cause, location, same⟩ | same
  · exact .inl (congrArg Machine.storage same)
  · exact .inr (.inl ((congrArg Machine.storage same).trans (exec_panicked cause location _)))
  · exact .inr (.inr (congrArg Machine.storage same))

theorem storage_run (program : Program) (config : Config) (signal : AbortSignal) :
    let simulator := signalled program config signal
    let storage := simulator.ending.2.storage
    simulator.run.2.storage = storage ∨ simulator.run.2.storage = storage.sweep.2 ∨
      simulator.run.2.storage = .empty :=
  @storage_of_unfinished (signalled program config signal) rfl

/-- Only a fault that ended the run is a panic of it, or a fault in its trace. -/
theorem fault_of_run {program : Program} {config : Config} {signal : AbortSignal}
    {kind : FaultKind}
    (shown : kind ∈ (signalled program config signal).run.2.panics.map (·.kind) ∨
      kind ∈ (signalled program config signal).run.2.machine.trace.faults) :
    ∃ cause location, cause.kind = kind ∧
      (signalled program config signal).ending.1 = .error (.error (.fault cause location)) := by
  have start : (signalled program config signal).machine.trace.faults = [] := rfl
  have noPanics : (signalled program config signal).panics = [] := rfl
  generalize started : signalled program config signal = simulator at shown start noPanics
  have fresh : simulator.finished = false := started ▸ rfl
  have kept : simulator.ending.2.trace.faults = [] :=
    (Run.Stepwise.faults_eq simulator.model.evaluator.run simulator.machine).trans start
  rw [run_eq_conclude fresh] at shown
  generalize simulator.ending = last at shown kept
  obtain ⟨result, machine⟩ := last
  have quiet : ¬ (kind ∈ simulator.panics.map (·.kind) ∨ kind ∈ machine.trace.faults) := by
    rw [noPanics, show machine.trace.faults = [] from kept]
    simp
  cases result with
  | ok _ => exact absurd shown quiet
  | error halt =>
      cases halt with
      | aborted location => exact absurd shown quiet
      | callDepthExceeded => exact absurd shown quiet
      | error error =>
          cases error with
          | fault cause location =>
              refine ⟨cause, location, ?_, rfl⟩
              rcases shown with panicked | recorded
              · have ended : kind ∈
                    (simulator.panics ++ [Panic.mk cause.kind location]).map (·.kind) := panicked
                rw [noPanics] at ended
                exact (List.mem_singleton.mp ended).symm
              · rcases faults_panicked recorded with before | here
                · exact absurd (.inr before) quiet
                · exact here.symm
          | _ => exact absurd shown quiet

/-- A run reports the errors that end it, other than faults, and leaves what it has come to. -/
theorem ending_of_run_error {program : Program} {config : Config} {signal : AbortSignal}
    {error : RuntimeError}
    (failed : (signalled program config signal).run.1 = .error (.runtime error)) :
    (signalled program config signal).ending.1 = .error (.error error) ∧
      (signalled program config signal).run.2.machine =
        (signalled program config signal).ending.2 := by
  generalize started : signalled program config signal = simulator at failed ⊢
  have fresh : simulator.finished = false := started ▸ rfl
  rw [run_eq_conclude fresh] at failed ⊢
  generalize simulator.ending = last at failed ⊢
  obtain ⟨result, machine⟩ := last
  cases result with
  | ok _ => cases failed
  | error halt =>
      cases halt with
      | aborted location => cases failed
      | callDepthExceeded => cases failed
      | error error => cases error <;> cases failed <;> exact ⟨rfl, rfl⟩

end Simulator

end ReferenceSemantics

import Mathlib
import ReferenceSemantics.Proofs.Run.Ending
import ReferenceSemantics.Proofs.Run.Nesting

set_option autoImplicit false

/-!
Accepted programs terminate, and their frames are no more than their functions and the root.

A call that is entered is recorded at once with its depth, so the trace shows every frame that a run
pushes.
-/

namespace ReferenceSemantics

open Run

namespace Simulator

variable {depth bound : Nat}

theorem panicked_nests (room : depth ≤ bound) (cause : Fault) (location : Location) :
    Nests depth bound (panicked cause location) := by
  have fault : Nests depth bound (record (.fault cause.kind location)) := fun machine started =>
    .flat [.fault cause.kind location] room started rfl (List.forall_mem_singleton.mpr trivial) rfl
      returned_deepEnough
  have captured : Nests depth bound capture := fun machine started =>
    .flat [] room started rfl (List.forall_mem_nil _) rfl returned_deepEnough
  unfold panicked
  exact fault.bind fun _ => captured.bind fun _ => .quiet room

/-- What is made of the end of a program adds no calls to its trace. -/
theorem conclude_nested (simulator : Simulator) {start : Machine}
    {last : Except Halt Unit × Machine} (nested : Nested depth bound start last) :
    (∃ events, (simulator.conclude last).2.machine.trace = start.trace.recordAll events ∧
      ∀ event ∈ events, event.Within bound) ∧
      (simulator.conclude last).1 ≠ .error .callDepthExceeded := by
  obtain ⟨result, machine⟩ := last
  cases result with
  | ok value =>
      refine ⟨nested.events, ?_⟩
      rintro ⟨⟩
  | error halt =>
      cases halt with
      | callDepthExceeded => exact absurd rfl nested.deepEnough
      | aborted location =>
          refine ⟨nested.events, ?_⟩
          rintro ⟨⟩
      | error error =>
          cases error with
          | fault cause location =>
              have panics := panicked_nests nested.within cause location machine rfl
              obtain ⟨events, trace, within⟩ := nested.events
              obtain ⟨later, trace', within'⟩ := panics.events
              refine ⟨⟨events ++ later, ?_, List.forall_mem_append.mpr ⟨within, within'⟩⟩, ?_⟩
              · rw [Trace.recordAll_append]
                exact trace'.trans (congrArg (Trace.recordAll · later) trace)
              · rintro ⟨⟩
          | _ =>
              refine ⟨nested.events, ?_⟩
              rintro ⟨⟩

variable {program : Program} {config : Config}

/-- An accepted program runs to an end from every state, without meeting the bound on the nesting of
calls, whatever the bound is. At every point of a first run the frames are at most the functions and
the root: the trace shows the depth of every frame that is pushed. -/
theorem run_terminates (checked : program.check config.entry = .ok ()) :
    let model := Model.new program config
    (∀ limit, program.functions.length ≤ limit →
      Evaluator.run ⟨model, model.invoke limit⟩ = model.execute) ∧
    (∀ simulator : Simulator, simulator.model = model →
      simulator.run.1 ≠ .error .callDepthExceeded) ∧
    ∀ signal limit,
      let simulator := (signalled program config signal).keeping limit
      (∀ function state depth,
        .call function state depth ∈ simulator.run.2.machine.trace.events →
          depth + 1 ≤ program.functions.length + 1) ∧
        simulator.ending.2.storage.depth ≤ program.functions.length + 1 := by
  intro model
  obtain ⟨rank, ranking⟩ := Program.exists_ranking checked config
  refine ⟨fun limit => ranking.run_eq, fun simulator same => ?_, fun signal limit => ?_⟩
  · by_cases finished : simulator.finished = true
    · rw [run, if_pos finished]
      rintro ⟨⟩
    · rw [run_eq_conclude (Bool.eq_false_iff.mpr finished)]
      have ranked : simulator.model.Ranking rank := same ▸ ranking
      have enough : simulator.model.functions.length ≤ simulator.model.maxCallDepth :=
        Nat.le_add_right _ _
      exact (simulator.conclude_nested (ranked.run_nests enough simulator.machine rfl)).2
  · intro simulator
    have nested : Nested 0 (0 + program.functions.length) simulator.machine simulator.ending :=
      ranking.run_nests (Nat.le_add_right _ _) simulator.machine rfl
    refine ⟨fun function state depth member => ?_, ?_⟩
    · obtain ⟨⟨events, trace, within⟩, -⟩ := simulator.conclude_nested nested
      rw [run_eq_conclude rfl, trace] at member
      rcases Trace.mem_recordAll member with before | recorded
      · cases before with
        | mk none => cases none
      · have bounded : depth ≤ 0 + program.functions.length := within _ recorded
        omega
    · have bounded := nested.within
      unfold Storage.depth
      omega

/-- A call whose argument is a call, and that calls a third function. -/
def nestingProgram : Program :=
  ⟨[⟨"g", .value, some (.call "one" []), none⟩],
    [.new "main" [] [.call "outer" [.call "one" []]],
      .new "outer" [⟨"n", .value⟩] [.declare (.new "m" .value (some (.call "one" [])))],
      (FunctionDef.new "one" [] [.ret (some (.lit (.int 1)))]).withResult none .value]⟩

theorem nestingProgram_checked : nestingProgram.check "main" = .ok () := by
  cbv

/-- Of the four frames that three functions allow, three are used. -/
theorem nesting_call :
    .call "one" .entered 2 ∈
      ((signalled nestingProgram .default .idle).keeping 100).run.2.machine.trace.events := by
  have shown : Array.contains
      ((signalled nestingProgram .default .idle).keeping 100).run.2.machine.trace.events
      (.call "one" .entered 2) = true := by
    cbv
  exact Array.contains_iff_mem.mp shown

theorem run_terminates_nesting :
    nestingProgram.check Config.default.entry = .ok () ∧
      ((signalled nestingProgram .default .idle).keeping 100).run.1 ≠ .error .callDepthExceeded ∧
      .call "one" .entered 2 ∈
        ((signalled nestingProgram .default .idle).keeping 100).run.2.machine.trace.events ∧
      2 + 1 ≤ nestingProgram.functions.length + 1 := by
  have checked : nestingProgram.check Config.default.entry = .ok () := nestingProgram_checked
  obtain ⟨-, terminates, bounded⟩ := run_terminates checked
  exact ⟨checked, terminates _ rfl, nesting_call,
    (bounded .idle 100).1 "one" .entered 2 nesting_call⟩

end Simulator

end ReferenceSemantics

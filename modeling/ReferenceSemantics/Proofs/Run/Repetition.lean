import Mathlib
import ReferenceSemantics.Proofs.Run.Interruption

set_option autoImplicit false

/-!
Runs that are repeated.

A verdict is final. An error is not: it leaves the frames in which it came up, so the next run
declares the globals in the last of them, and still reads what the root frame holds.
-/

namespace ReferenceSemantics

namespace Simulator

/-- A run that returns a verdict is the last one. -/
theorem finished_run {simulator : Simulator} {verdict : Verdict}
    (returned : simulator.run.1 = .ok verdict) :
    simulator.run.2.finished = true ∧ simulator.run.2.verdict = verdict := by
  cases known : simulator.finished with
  | true =>
      have same : simulator.run = (.ok simulator.verdict, simulator) := if_pos known
      rw [same] at returned ⊢
      exact ⟨known, Except.ok.inj returned⟩
  | false =>
      rw [run_eq_conclude known] at returned ⊢
      generalize simulator.ending = last at returned
      obtain ⟨result, machine⟩ := last
      cases result with
      | ok _ => exact ⟨rfl, Except.ok.inj returned⟩
      | error halt =>
          cases halt with
          | aborted _ => cases returned
          | callDepthExceeded => cases returned
          | error error =>
              cases error with
              | fault _ _ => exact ⟨rfl, Except.ok.inj returned⟩
              | _ => cases returned

/-- Once a run has returned a verdict, every later run returns it and changes nothing. -/
theorem run_after_verdict {simulator : Simulator} {verdict : Verdict} {runs : Nat}
    (returned : (simulator.after runs).run.1 = .ok verdict) (more : Nat) :
    (simulator.after (runs + 1 + more)).run = (.ok verdict, (simulator.after runs).run.2) := by
  obtain ⟨finished, same⟩ := finished_run returned
  have unchanged : simulator.after (runs + 1 + more) = (simulator.after runs).run.2 := by
    induction more with
    | zero => rfl
    | succ more inductionHypothesis =>
        calc simulator.after (runs + 1 + more + 1)
            = (simulator.after (runs + 1 + more)).run.2 := rfl
          _ = (simulator.after runs).run.2.run.2 := by rw [inductionHypothesis]
          _ = (simulator.after runs).run.2 := by rw [run, if_pos finished]
  rw [unchanged, run, if_pos finished, same]

/-- A local gets the address of a `new` slot that a function is called with and stores in a
global. -/
def keepingProgram : Program :=
  ⟨[.new "kept" .pointer (some .nil)],
    [.new "main" []
      [.declare (.new "x" .pointer (some (.call "keep" [.new (.lit (.int 5)) "five"])))],
      (FunctionDef.new "keep" [⟨"p", .pointer⟩]
        [.assign "kept" (.var "p"), .ret (some (.var "p"))]).withResult none .pointer]⟩

/-- Both names hold the address of the slot in the heap. -/
def keptVerdict : Verdict where
  finalValues := .ofList
    [("kept", .pointerTo (.ofAddress heapStart)), ("x", .pointerTo (.ofAddress heapStart))]
  panics := []
  placements := .ofList [("five", .heap), ("keep.p", .stack), ("main.x", .stack)]

theorem run_after_verdict_kept :
    ((new keepingProgram .default).after 0).run.1 = .ok keptVerdict ∧
      ((new keepingProgram .default).after 3).run.1 = .ok keptVerdict := by
  have returned : ((new keepingProgram .default).after 0).run.1 = .ok keptVerdict := by
    cbv
  exact ⟨returned, congrArg Prod.fst (run_after_verdict returned 2)⟩

/-- A global is copied and then gets a value of another type; the copy is used as that type. -/
def retriedProgram : Program :=
  ⟨[.new "g" .value (some (.lit (.int 5)))],
    [.new "main" []
      [.declare (.new "t" .value (some (.var "g"))),
        .assign "g" (.composite "P" [("a", .lit (.int 1))]),
        .declare (.new "x" .value (some (.field (.var "t") "a")))]]⟩

/-- The error of a first run may be gone in the second, which reads a global that the first one has
changed. -/
theorem not_run_repeats :
    ¬ ∀ (program : Program) (config : Config), program.check config.entry = .ok () →
      ∀ runs, ((new program config).after runs).run.1 = (new program config).run.1 := by
  intro repeats
  have checked : retriedProgram.check Config.default.entry = .ok () := by
    cbv
  have first : (new retriedProgram .default).run.1 =
      .error (.runtime (.kindMismatch (.notComposite .primitive) ⟨"main", 2⟩)) := by
    cbv
  have second : ((new retriedProgram .default).after 1).run.1.isOk = true := by
    cbv
  have same := repeats retriedProgram .default checked 1
  rw [same, first] at second
  cases second

end Simulator

end ReferenceSemantics

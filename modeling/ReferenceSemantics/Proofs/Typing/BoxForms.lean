import Mathlib
import ReferenceSemantics.Proofs.Reference.Validity
import ReferenceSemantics.Proofs.Typing.SlotKinds

set_option autoImplicit false

/-!
Boxes stay in canonical form, through any number of runs.

A run goes on from the storage that the runs before it left, whatever they ended in, so that what is
regular at first is regular for good. Storage is seen at the statement boundaries, and where calls
begin and complete, together with what they are passed and hand back.
-/

namespace ReferenceSemantics

open Run

theorem Storage.Regular.canonical_of_holds {storage : Storage} (regular : storage.Regular)
    {value : Value} (held : storage.Holds value) : value.Canonical := by
  rcases held with ⟨frame, member, slot, owned, rfl⟩ | ⟨address, object, found, member⟩
  · have inStack : slot ∈ storage.stackSlots := List.mem_flatMap.mpr ⟨frame, member, owned⟩
    exact regular.canonical (.inl ⟨slot, inStack, rfl, rfl⟩) _ (List.mem_singleton.mpr rfl)
  · exact regular.canonical (.inr found) value member

/-- What is boxed because a box is expected is not empty, not even when it is an empty pointer. -/
theorem Evaluator.evaluateFor_box (evaluator : Evaluator) {location : Location} {expr : Expr}
    {machine last : Machine} {content : Value} (other : expr ≠ .nil)
    (ran : exec (evaluator.evaluate location expr) machine = (.ok content, last))
    (concrete : content.shape ≠ .interfaceBox) :
    ∃ box, exec (evaluator.evaluateFor location .interfaceBox expr) machine = (.ok box, last) ∧
      box.shape = .interfaceBox ∧ box.isEmpty = false := by
  refine ⟨content.inBox, ?_, by cases content <;> rfl, Value.isEmpty_inBox concrete⟩
  unfold evaluateFor flowInto
  split
  next => exact absurd rfl other
  next =>
    rw [exec_bind, ran]
    rfl

namespace Simulator

variable {program : Program} {config : Config} {simulator : Simulator}

/-- The simulators that a host comes to with signals and runs. -/
inductive Reached (program : Program) (config : Config) : Simulator → Prop where
  | new : Reached program config (.new program config)
  | signal {simulator : Simulator} (reached : Reached program config simulator)
      (f : AbortSignal → AbortSignal) : Reached program config (simulator.modifySignal f)
  | run {simulator : Simulator} (reached : Reached program config simulator) :
      Reached program config simulator.run.2

/-- A value in storage, an argument or a result, before, in or at the end of the next run. -/
inductive Shows (simulator : Simulator) (value : Value) : Prop where
  | before (held : simulator.storage.Holds value)
  | ended (held : simulator.ending.2.storage.Holds value)
  | begun (call : StartedCall) (begins : simulator.Begins call)
      (shown : value ∈ call.args ∨ call.before.storage.Holds value)
  | completed (call : CompletedCall) (executes : simulator.Executes call)
      (shown : call.result = some value ∨ call.after.storage.Holds value)

/-- A simulator of the program that starts its next run in regular storage. -/
structure Ready (program : Program) (config : Config) (simulator : Simulator) : Prop where
  model : simulator.model = .new program config
  regular : simulator.storage.Regular

theorem Ready.run (checked : program.check config.entry = .ok ())
    (ready : simulator.Ready program config) : simulator.run.2.Ready program config := by
  cases finished : simulator.finished with
  | true =>
      rw [Simulator.run, if_pos finished]
      exact ready
  | false =>
      have ended := ending_regular checked ready.model ready.regular
      refine ⟨?_, ?_⟩
      · rw [run_eq_conclude finished]
        exact (model_conclude simulator _).trans ready.model
      · rcases storage_of_unfinished finished with same | same | same
        · exact same ▸ ended
        · exact same ▸ ended.sweep
        · exact same ▸ .empty

theorem Reached.ready (checked : program.check config.entry = .ok ())
    (reached : Reached program config simulator) : simulator.Ready program config := by
  induction reached with
  | new => exact ⟨rfl, .empty⟩
  | signal reached f inductionHypothesis =>
      exact ⟨inductionHypothesis.model, inductionHypothesis.regular⟩
  | run reached inductionHypothesis => exact inductionHypothesis.run checked

theorem Ready.begins (checked : program.check config.entry = .ok ())
    (ready : simulator.Ready program config) {call : StartedCall} (begins : simulator.Begins call) :
    call.before.storage.Regular ∧ ∀ arg ∈ call.args, arg.Canonical := by
  obtain ⟨model, machine, panics, finished⟩ := simulator
  obtain ⟨rfl, regular⟩ := ready
  obtain ⟨all, known⟩ := Program.exists_globals checked
  let typing := program.typing config known fun _ =>
    call.before.storage.Regular ∧ ∀ arg ∈ call.args, arg.Canonical
  have calls : typing.Calls ⟨typing.model, typing.model.invokeBefore call Typing.improperHalt
      typing.model.maxCallDepth⟩ :=
    Typing.started_calls And.intro _
  exact Typing.open_of_improper calls regular (begins Typing.improperHalt)

theorem Ready.completes (checked : program.check config.entry = .ok ())
    (ready : simulator.Ready program config) {call : CompletedCall}
    (completes : ∀ halt, exec (Evaluator.run ⟨simulator.model,
      simulator.model.invokeUntil call halt simulator.model.maxCallDepth⟩) simulator.machine =
        (.error halt, call.after)) :
    call.after.storage.Regular ∧ CanonicalResult call.result := by
  obtain ⟨model, machine, panics, finished⟩ := simulator
  obtain ⟨rfl, regular⟩ := ready
  obtain ⟨all, known⟩ := Program.exists_globals checked
  let typing := program.typing config known fun _ =>
    call.after.storage.Regular ∧ CanonicalResult call.result
  have calls : typing.Calls ⟨typing.model, typing.model.invokeUntil call Typing.improperHalt
      typing.model.maxCallDepth⟩ :=
    Typing.completed_calls (fun _ _ => And.intro) _
  exact Typing.open_of_improper calls regular (completes Typing.improperHalt)

theorem Ready.enters (checked : program.check config.entry = .ok ())
    (ready : simulator.Ready program config) {function : FunctionDef} {before after : Machine}
    {result : Option Value}
    (globals : exec (simulator.model.evaluator.declareGlobals 0 simulator.model.globals)
      simulator.machine = (.ok (), before))
    (found : simulator.model.function? simulator.model.config.entry = some function)
    (ran : exec (simulator.model.evaluator.runEntry function) before = (.ok result, after)) :
    after.storage.Regular ∧ CanonicalResult result := by
  obtain ⟨model, machine, panics, finished⟩ := simulator
  obtain ⟨rfl, regular⟩ := ready
  obtain ⟨all, known⟩ := Program.exists_globals checked
  let typing := program.typing config known fun _ => False
  have calls := typing.invoke_calls typing.model.maxCallDepth
  have declared : typing.Ends (fun _ _ => True) (.ok (), before) :=
    globals ▸ Typing.declareGlobals_leads calls 0 typing.taggedGlobals machine rfl regular
  cases declared with
  | done regular _ =>
      have ended : typing.Ends (fun _ result => CanonicalResult result) (.ok result, after) :=
        ran ▸ Typing.runEntry_leads calls found before rfl regular
      cases ended with
      | done regular canonical => exact ⟨regular, canonical⟩

/-- In every sequence of runs the boxes are canonical, in storage as in arguments and results. So a
box is empty exactly when it has no tag, and what is boxed because a box is expected never is. -/
theorem boxes_canonical (checked : program.check config.entry = .ok ())
    (reached : Reached program config simulator) :
    (∀ value, simulator.Shows value → value.Canonical ∧
      ∀ typeTag content, (typeTag, content) ∈ value.boxes →
        ((Value.interfaceBox typeTag content).isEmpty = true ↔ typeTag = none)) ∧
      ∀ invoke location expr machine content last, expr ≠ Expr.nil →
        exec (Evaluator.evaluate ⟨simulator.model, invoke⟩ location expr) machine =
          (.ok content, last) → content.shape ≠ .interfaceBox →
        ∃ box, exec (Evaluator.evaluateFor ⟨simulator.model, invoke⟩ location .interfaceBox expr)
          machine = (.ok box, last) ∧ box.shape = .interfaceBox ∧ box.isEmpty = false := by
  have ready := reached.ready checked
  refine ⟨fun value shows => ?_, fun invoke location expr machine content last other ran concrete =>
    Evaluator.evaluateFor_box _ other ran concrete⟩
  have canonical : value.Canonical := by
    cases shows with
    | before held => exact ready.regular.canonical_of_holds held
    | ended held => exact (ending_regular checked ready.model ready.regular).canonical_of_holds held
    | begun call begins shown =>
        obtain ⟨regular, args⟩ := ready.begins checked begins
        exact shown.elim (args value) regular.canonical_of_holds
    | completed call executes shown =>
        have kept : call.after.storage.Regular ∧ CanonicalResult call.result := by
          cases executes with
          | nested _ completes => exact ready.completes checked completes
          | entry _ _ _ _ globals found ran => exact ready.enters checked globals found ran
        exact shown.elim (kept.2 value) kept.1.canonical_of_holds
  exact ⟨canonical, fun _ _ => canonical.isEmpty_iff⟩

/-- A call that puts the box it is passed beside the box of the literal. -/
def boxingCallee : FunctionDef :=
  .new "pair" [⟨"b", .interfaceBox⟩]
    [.declare (.new "both" .value
        (some (.composite "Pair" [("left", .var "b"), ("right", .boxed none .nil)]))),
      .ret none]

/-- An empty pointer is boxed because a box is expected. -/
def boxingEntry : FunctionDef :=
  .new "main" [] [.declare (.new "p" .pointer none), .call "pair" [.var "p"]]

def boxingProgram : Program := ⟨[], [boxingEntry, boxingCallee]⟩

/-- The run stops before the call returns. -/
def boxing : Simulator := signalled boxingProgram .default ⟨false, some 3⟩

def boxingArg : Value := .interfaceBox (some Shape.pointer.name) .nilPointer

def boxingPair : Value :=
  .composite "Pair" [("left", boxingArg), ("right", .interfaceBox none .nilPointer)]

def boxingCall : StartedCall :=
  let location : Location := ⟨"main", 1⟩
  let before := (exec (do
    boxing.model.enter boxingEntry [] none
    let _ ← boxing.model.evaluator.executeFrom boxingEntry 0 (boxingEntry.body.take 1)
    checkpoint location) boxing.machine).2
  ⟨boxingCallee, [boxingArg], location, before⟩

theorem boxingProgram_checked : boxingProgram.check "main" = .ok () := by
  cbv

theorem boxing_reached : Reached boxingProgram .default boxing :=
  .signal .new fun _ => ⟨false, some 3⟩

/-- The pair is in a slot of the callee. -/
theorem boxing_shows : boxing.Shows boxingPair := by
  have values : boxing.ending.2.storage.stackSlots.map (·.value) =
      [.nilPointer, boxingArg, boxingPair] := by cbv
  have held : boxingPair ∈ boxing.ending.2.storage.stackSlots.map (·.value) := by
    rw [values]
    exact .tail _ (.tail _ (.head _))
  obtain ⟨slot, member, same⟩ := List.mem_map.mp held
  obtain ⟨frame, inFrames, owned⟩ := List.mem_flatMap.mp member
  exact .ended (.inl ⟨frame, inFrames, slot, owned, same⟩)

theorem boxingCall_args (invoke : FunctionDef → List Value → Location → Run (Option Value)) :
    exec (Evaluator.evaluateArgs ⟨boxing.model, invoke⟩ ⟨"main", 1⟩ boxingCallee.params
      [.var "p"]) boxingCall.before = (.ok boxingCall.args, boxingCall.before) := by
  cbv

theorem boxingCall_stopped (halt : Halt) (depth : Nat) :
    exec (boxing.model.invokeBefore boxingCall halt (depth + 1) boxingCallee boxingCall.args
      ⟨"main", 1⟩) boxingCall.before = (.error halt, boxingCall.before) := by
  rw [exec_invokeBefore]
  exact if_pos rfl

/-- The run goes through the first statement to the call in the second. -/
theorem boxing_begins : boxing.Begins boxingCall := by
  intro halt
  unfold Evaluator.run
  refine (exec_bind_ok () rfl).trans ?_
  refine (exec_bind_ok boxingEntry rfl).trans (exec_bind_error ?_)
  unfold Evaluator.runEntry
  refine (exec_bind_ok () rfl).trans (exec_bind_error ?_)
  unfold Evaluator.executeBody
  refine (exec_bind_ok () rfl).trans ?_
  refine (exec_bind_ok Flow.next rfl).trans ?_
  refine (exec_bind_ok () rfl).trans (exec_bind_error (exec_bind_error ?_))
  refine (exec_bind_ok boxingCallee rfl).trans ?_
  refine (exec_bind_ok () rfl).trans ?_
  exact (exec_bind_ok _ (boxingCall_args _)).trans (boxingCall_stopped halt _)

theorem boxes_canonical_boxing :
    boxingProgram.check "main" = .ok () ∧ Reached boxingProgram .default boxing ∧
      boxing.Shows boxingPair ∧ boxingPair.Canonical ∧
      boxing.Begins boxingCall ∧ boxingArg.Canonical ∧ boxingArg.isEmpty = false := by
  have canonical := (boxes_canonical boxingProgram_checked boxing_reached).1
  have shows : boxing.Shows boxingArg := .begun boxingCall boxing_begins (.inl (.head _))
  refine ⟨boxingProgram_checked, boxing_reached, boxing_shows, (canonical _ boxing_shows).1,
    boxing_begins, (canonical _ shows).1, ?_⟩
  have tagged := (canonical _ shows).2 (some Shape.pointer.name) .nilPointer (by
    rw [boxingArg, Value.boxes]
    exact .head _)
  exact Bool.eq_false_iff.mpr fun empty => by cases tagged.mp empty

end Simulator

end ReferenceSemantics

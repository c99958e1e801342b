import ReferenceSemantics.Proofs.Reference.Validity
import ReferenceSemantics.Proofs.Run.Simulation.Watch

set_option autoImplicit false

/-!
What a call can change.

A call gets hold of what its arguments and the root frame lead to and of what it creates. The calls
of a run are therefore confined to that, and they leave the frames below as they were.
-/

namespace ReferenceSemantics

open Run Storage

/-- What exposed addresses lead to, through every value of the objects on the way. -/
inductive Storage.Reaches (storage : Storage) (exposed : Address → Prop) : Address → Prop where
  | exposed {address : Address} (known : exposed address) : Reaches storage exposed address
  | step {address held : Address} {object : HeapObject} {value : Value}
      (reached : Reaches storage exposed address)
      (found : storage.objectAt? address = some object) (member : value ∈ object.contents)
      (refers : held ∈ value.references) : Reaches storage exposed held

namespace CompletedCall

/-- The slots of the root frame, and what the arguments refer to. -/
def Exposes (call : CompletedCall) (address : Address) : Prop :=
  (∃ slot ∈ call.before.storage.root.slots, slot.address = address) ∨
    ∃ arg ∈ call.args, address ∈ arg.references

/-- What the call may touch: new objects, and those it can get hold of. -/
def Territory (call : CompletedCall) (address : Address) : Prop :=
  call.before.storage.objectAt? address = none ∨
    call.before.storage.Reaches call.Exposes address

/-- The frames below the call are as before, but for the values of slots, and the objects that
differ were reachable. -/
structure Contained (call : CompletedCall) : Prop where
  outline : call.after.storage.outline = call.before.storage.outline
  depth : call.after.storage.depth = call.before.storage.depth
  touched : ∀ address object, call.before.storage.objectAt? address = some object →
    call.after.storage.objectAt? address ≠ some object →
      call.before.storage.Reaches call.Exposes address

variable {call : CompletedCall}

/-- The simulation of the inside of a call by itself. -/
def confinement (call : CompletedCall) (model : Model) (isOpen : Halt → Prop) :
    ProgramSimulation :=
  ReferenceSemantics.confinement model call.before.storage call.before.storage.frames.length
    call.Territory (fun _ => .inl) isOpen

/-- The frame of a call has nothing in it. -/
theorem confined_pushFrame (sound : call.before.storage.Sound) :
    Confined call.before.storage call.before.storage.frames.length call.Territory
      (call.before.storage.pushFrame call.function.name call.callSite) := by
  have size : call.before.storage.outline.length = call.before.storage.frames.length :=
    List.length_map _
  have outlines : (call.before.storage.pushFrame call.function.name call.callSite).outline =
      call.before.storage.outline ++ [.new call.function.name call.callSite] := by
    rw [outline, outline, frames_pushFrame, List.map_append]
    rfl
  refine ⟨sound.pushFrame _ _, ?_, ?_, ?_, fun _ => objectAt?_pushFrame _ _ _ _, ?_, ?_⟩
  · rw [frames_pushFrame, List.length_append]
    exact Nat.lt_succ_self _
  · rw [outlines, ← size, List.take_left, List.take_length]
  · intro address object known found value member held refers
    rw [objectAt?_pushFrame] at found
    rcases known with absent | reached
    · rw [absent] at found
      cases found
    · exact .inr (.step reached found member refers)
  · intro frame member
    rw [outlines, ← size, List.drop_left] at member
    obtain rfl := List.mem_singleton.mp member
    refine ⟨?_, ?_⟩ <;>
      · intro _ absurdity
        cases absurdity
  · intro binding member
    have owned := sound.coherent.rootBound binding member
    obtain ⟨slot, inRoot, same⟩ := List.mem_map.mp owned
    exact .inr (.exposed (.inl ⟨slot, inRoot, same⟩))

/-- When the frame is popped again, everything outside of the territory is as before. -/
theorem contained_of_confined {last : Storage}
    (confined : Confined call.before.storage call.before.storage.frames.length
      call.Territory last)
    (frames : last.frames.length = call.before.storage.frames.length + 1)
    (popped : call.after.storage = last.popFrame) : call.Contained := by
  have depth : 0 < call.before.storage.frames.length := Nat.succ_pos _
  have called : last.InCall := inCall_iff.mpr (by omega)
  have outlines : call.after.storage.outline = call.before.storage.outline := by
    have kept := confined.kept
    rw [popped, outline, frames_popFrame called, List.map_dropLast, ← outline,
      List.dropLast_eq_take, outline, List.length_map, ← outline, frames]
    rw [show call.before.storage.frames.length = call.before.storage.outline.length from
      (List.length_map _).symm, List.take_length] at kept
    rw [Nat.add_sub_cancel, ← kept]
    simp only [outline, List.length_map]
  refine ⟨outlines, ?_, fun address object found changed => ?_⟩
  · have size := congrArg List.length outlines
    rwa [outline, outline, List.length_map, List.length_map, length_frames, length_frames] at size
  · by_contra unreached
    have unknown : ¬ call.Territory address := by
      rintro (absent | reached)
      · rw [absent] at found
        cases found
      · exact unreached reached
    refine changed ?_
    rw [popped, confined.sound.coherent.objectAt?_popFrame called, if_neg, confined.outside unknown,
      found]
    intro gone
    obtain ⟨slot, member, rfl⟩ := List.mem_map.mp gone
    exact unknown (confined.current_within.1 slot member)

/-- The inside of a call that returned stays in the territory. -/
theorem inside_contained {model : Model} {isOpen : Halt → Prop} {evaluator evaluator' : Evaluator}
    [evaluator.Stepwise] (calls : (call.confinement model isOpen).Calls evaluator evaluator')
    (sound : call.before.storage.Sound)
    (valid : ∀ arg ∈ call.args, call.before.storage.WellReferenced arg) {observe : Run Unit}
    [Stepwise observe]
    (observed : ∀ {later : Storage},
      (call.confinement model isOpen).Agree later observe observe fun _ _ _ => True)
    {location : Location} (fits : call.after.storage.Fits)
    (returned : exec (do
      let result ← framed call.function.name call.callSite
        (evaluator.inside call.function call.args location observe)
      transition call.function.name .exited
      return result) call.before = (.ok call.result, call.after)) : call.Contained := by
  obtain ⟨last, ran, popped⟩ := framed_returned returned
  let pushed := call.before.storage.pushFrame call.function.name call.callSite
  have inCall : pushed.InCall := by
    rw [inCall_iff, frames_pushFrame, List.length_append]
    exact Nat.lt_add_of_pos_left (Nat.succ_pos _)
  have linked : List.Forall₂ ((call.confinement model isOpen).values pushed) call.args call.args := by
    refine forall₂_linked_iff.mpr ⟨rfl, fun arg member => ⟨?_, fun address refers => ?_⟩⟩
    · exact (keeps_pushFrame _ _ _).wellReferenced (valid arg member)
    · exact .inr (.exposed (.inr ⟨arg, member, refers⟩))
  have related : (call.confinement model isOpen).Related pushed
      { call.before with storage := pushed } { call.before with storage := pushed } :=
    ⟨⟨rfl, rfl, confined_pushFrame sound⟩, rfl, trivial⟩
  have ended := Simulation.inside_agrees calls inCall call.function location linked observed
    _ _ related
  rw [ran] at ended
  have room : last.storage.Fits := by
    have stackEnd := (heap_popFrame last.storage).2.1
    unfold Fits at fits ⊢
    rwa [popped, stackEnd] at fits
  generalize exec (evaluator'.inside _ _ _ _) _ = last' at ended
  cases ended with
  | overflow full => exact absurd room full
  | done next grown related _ =>
      obtain ⟨rfl, -, confined⟩ := related.storages
      have frames := grown.frames
      rw [frames_pushFrame, List.length_append, List.length_singleton] at frames
      exact contained_of_confined confined frames popped

/-- A call below the entry function, from the evaluator that watches it. -/
theorem perform_contained {model : Model} {halt : Halt} {depth : Nat} {callSite : Location}
    (site : call.callSite = some callSite) (sound : call.before.storage.Sound)
    (valid : ∀ arg ∈ call.args, call.before.storage.WellReferenced arg)
    (ran : exec (Evaluator.perform ⟨model, model.invokeUntil call halt depth⟩ call.function
      call.args callSite) call.before = (.ok call.result, call.after))
    (fits : call.after.storage.Fits) : call.Contained := by
  have calls : (call.confinement model (· = halt)).Calls
      ⟨model, model.invokeUntil call halt depth⟩ ⟨model, model.invoke depth⟩ :=
    Simulation.watched_calls (fun _ _ _ _ _ => rfl) depth
  rw [Evaluator.perform_eq, ← site] at ran
  exact inside_contained calls sound valid (.pure trivial) fits ran

end CompletedCall

namespace Simulator

variable {program : Program} {config : Config} {signal : AbortSignal} {call : CompletedCall}

/-- The soundness of a run is what its calls start from. -/
theorem nested_contained
    (stopped : ∀ halt, exec (Evaluator.run ⟨Model.new program config,
      (Model.new program config).invokeUntil call halt (Model.new program config).maxCallDepth⟩)
        (signalled program config signal).machine = (.error halt, call.after))
    (fits : call.after.storage.Fits) : call.Contained := by
  let model := Model.new program config
  let halt : Halt := .error (.invalidState 0 .slot default)
  let sim := confinement model .empty 0 (fun _ => True) (fun _ _ => trivial)
    fun other => other = halt ∧ call.Contained
  have calls : sim.Calls ⟨model, model.invokeUntil call halt model.maxCallDepth⟩
      ⟨model, model.invoke model.maxCallDepth⟩ := by
    refine Simulation.watched_calls ?_ _
    intro world depth callSite machine' args' site related linked ran fits
    obtain ⟨here, -, confined⟩ := related.storages
    have valid := (forall₂_linked_iff.mp linked).2
    subst here
    exact ⟨rfl, CompletedCall.perform_contained site confined.sound
      (fun arg member => (valid arg member).1) ran fits⟩
  have related : sim.Related .empty (signalled program config signal).machine
      (signalled program config signal).machine :=
    ⟨⟨rfl, rfl, Sound.empty.confined _⟩, rfl, trivial⟩
  have ended := ProgramSimulation.run_agrees calls (fun inCall => inCall rfl) _ _ related
  rw [stopped halt] at ended
  generalize exec (Evaluator.run _) _ = last' at ended
  cases ended with
  | overflow full => exact absurd fits full
  | left_open isOpen => exact isOpen.2
  | halted _ valid _ => exact valid.elim

/-- The call of the entry function starts from sound storage with the globals in it. -/
theorem entry_contained {function : FunctionDef} {before after : Machine} {result : Option Value}
    (globals : exec ((Model.new program config).evaluator.declareGlobals 0 program.globals)
      (signalled program config signal).machine = (.ok (), before))
    (ran : exec ((Model.new program config).evaluator.runEntry function) before =
      (.ok result, after))
    (fits : after.storage.Fits) :
    CompletedCall.Contained ⟨function, [], none, before, result, after⟩ := by
  let model := Model.new program config
  have start : before.storage.Sound := by
    have room : before.storage.Fits :=
      Run.Stepwise.fits (model.evaluator.runEntry function) (by rw [ran]; exact fits)
    have calls := Simulation.invoke_calls (soundness model).toSimulation model.maxCallDepth
    have fresh : (signalled program config signal).machine.storage.Sound := Sound.empty
    have ended : (soundness model).Ends .empty (fun _ _ _ => True)
        (exec (model.evaluator.declareGlobals 0 program.globals)
          (signalled program config signal).machine)
        (exec (model.evaluator.declareGlobals 0 program.globals)
          (signalled program config signal).machine) :=
      ProgramSimulation.declareGlobals_agrees calls (fun inCall => inCall rfl) 0 program.globals
        _ _ (soundness_related model fresh)
    rw [globals] at ended
    exact (ended.sound rfl room).1
  rw [Evaluator.runEntry_eq] at ran
  have calls := Simulation.invoke_calls
    (CompletedCall.confinement ⟨function, [], none, before, result, after⟩ model
      fun _ => False).toSimulation model.maxCallDepth
  exact CompletedCall.inside_contained calls start nofun
    (ProgramSimulation.capture_agrees.bind fun _ _ => ProgramSimulation.sweep_agrees) fits ran

/-- A call leaves the frames below it as they were, and what it changed elsewhere was a slot of the
root frame or reachable from one or from an argument. -/
theorem call_contained (executed : (signalled program config signal).Executes call)
    (fits : call.after.storage.Fits) : call.Contained := by
  cases executed with
  | nested _ stopped => exact nested_contained stopped fits
  | entry function before result after globals found ran => exact entry_contained globals ran fits

/-- A call that stores through its parameter into a local of the entry function. -/
def storingCallee : FunctionDef :=
  .new "bump" [⟨"p", .pointer⟩] [.store (.var "p") (.lit (.int 1))]

def storingEntry : FunctionDef :=
  .new "main" [] [.declare (.new "x" .value none), .call "bump" [.addrOf (.var "x")]]

def storing : Simulator :=
  signalled ⟨[], [storingEntry, storingCallee]⟩
    { Config.default with placementPolicy := .forceStack } .idle

/-- The call from the second statement, with the address of the first stack slot. -/
def storingCall : CompletedCall :=
  let location : Location := ⟨"main", 1⟩
  let args : List Value := [.pointerTo (.ofAddress stackStart)]
  let before := (exec (do
    storing.model.enter storingEntry [] none
    let _ ← storing.model.evaluator.executeFrom storingEntry 0 (storingEntry.body.take 1)
    checkpoint location) storing.machine).2
  let after := (exec (Evaluator.perform ⟨storing.model, storing.model.invoke 0⟩ storingCallee args
    location) before).2
  ⟨storingCallee, args, some location, before, none, after⟩

theorem storingCall_stopped (halt : Halt) (depth : Nat) :
    exec (storing.model.invokeUntil storingCall halt (depth + 1) storingCallee storingCall.args
      ⟨"main", 1⟩) storingCall.before = (.error halt, storingCall.after) := by
  have performed : exec (Evaluator.perform
      ⟨storing.model, storing.model.invokeUntil storingCall halt depth⟩ storingCallee
      storingCall.args ⟨"main", 1⟩) storingCall.before = (.ok none, storingCall.after) := rfl
  rw [exec_invokeUntil, performed]
  exact if_pos rfl

/-- The run goes through the first statement to the call in the second. -/
theorem storing_executes : storing.Executes storingCall := by
  refine .nested _ fun halt => ?_
  unfold Evaluator.run
  refine (exec_bind_ok () rfl).trans ?_
  refine (exec_bind_ok storingEntry rfl).trans (exec_bind_error ?_)
  unfold Evaluator.runEntry
  refine (exec_bind_ok () rfl).trans (exec_bind_error ?_)
  unfold Evaluator.executeBody
  refine (exec_bind_ok () rfl).trans ?_
  refine (exec_bind_ok Flow.next rfl).trans ?_
  refine (exec_bind_ok () rfl).trans (exec_bind_error (exec_bind_error ?_))
  refine (exec_bind_ok storingCallee rfl).trans ?_
  refine (exec_bind_ok () rfl).trans ?_
  refine (exec_bind_ok storingCall.args rfl).trans ?_
  exact storingCall_stopped halt _

theorem storingCall_fits : storingCall.after.storage.Fits := by
  unfold Fits
  decide +kernel

theorem call_contained_storing :
    storing.Executes storingCall ∧ storingCall.after.storage.Fits ∧ storingCall.Contained :=
  ⟨storing_executes, storingCall_fits, call_contained storing_executes storingCall_fits⟩

end Simulator

end ReferenceSemantics

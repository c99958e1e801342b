import Mathlib
import ReferenceSemantics.Proofs.Escape.Classification

set_option autoImplicit false

/-!
The classification is sound: no run that asks it comes upon a frame that is gone.

What is said of storage here says nothing of sites. A pointer in the heap or in a global points to
the heap or to a global, and one in the frame of a call also to that frame or to those below it.
-/

namespace ReferenceSemantics

open Run

namespace Storage

/-- Pointers lead to slots that are there for at least as long as the slots they are in. -/
structure Nested (storage : Storage) : Prop where
  heap : ∀ {address object}, storage.heap.get? address = some object →
    ∀ value ∈ object.contents, storage.Lasting value
  root : ∀ slot ∈ storage.root.slots, storage.Lasting slot.value
  frames : ∀ {depth frame}, storage.frame? depth = some frame → ∀ slot ∈ frame.slots,
    ∀ target ∈ slot.value.pointees, (∃ held, storage.heap.get? target = some (.slot held)) ∨
      ∃ lower owner, lower ≤ depth ∧ storage.frame? lower = some owner ∧
        ∃ held ∈ owner.slots, held.address = target

variable {storage : Storage} {facts : EscapeFacts} {depth : Nat} {function : String} {slot : Slot}

theorem Owns.frame (owned : storage.Owns depth function slot) :
    ∃ frame, storage.frame? depth = some frame ∧ ∃ held ∈ frame.slots, held.outline = slot := by
  obtain ⟨outline, found, -, member⟩ := owned
  rw [Storage.outline, List.getElem?_map, Option.map_eq_some_iff] at found
  obtain ⟨frame, found, rfl⟩ := found
  exact ⟨frame, (storage.frame?_eq depth).trans found, List.mem_map.mp member⟩

theorem owns_of_frame {frame : Frame} (found : storage.frame? depth = some frame)
    (member : slot ∈ frame.slots) : storage.Owns depth frame.function slot.outline := by
  rw [frame?_eq] at found
  refine ⟨frame.outline, ?_, rfl, List.mem_map_of_mem member⟩
  rw [outline, List.getElem?_map, found]
  rfl

theorem Secure.nested (secure : storage.Secure facts) : storage.Nested := by
  have frames : ∀ {depth frame}, storage.frame? depth = some frame → ∀ slot ∈ frame.slots,
      ∀ target ∈ slot.value.pointees, storage.Outlives target ∨ (0 < depth ∧
        ∃ lower owner held, lower ≤ depth ∧ storage.Owns lower owner held ∧
          held.address = target) := by
    intro depth frame found slot member target inside
    have owned := owns_of_frame found member
    have inStack : slot ∈ storage.stackSlots :=
      List.mem_flatMap.mpr ⟨frame, List.mem_of_getElem? (frame?_eq storage depth ▸ found), member⟩
    have admissible := secure.objects (secure.coherent.objectAt?_of_mem inStack)
    cases admissible.pointees slot.value (List.mem_singleton.mpr rfl) target inside with
    | outlives outlives => exact .inl outlives
    | held other owner holder site inCall ownedThere here named covered =>
        obtain ⟨rfl, rfl, rfl⟩ := secure.coherent.owns_unique owned ownedThere here.symm
        cases covered with
        | outlives outlives => exact .inl outlives
        | owned held _ ownedToo same _ _ =>
            exact .inr ⟨inCall, _, _, held, Nat.le_refl _, ownedToo, same⟩
        | passed lower lowest held _ below ownedToo same _ _ _ =>
            exact .inr ⟨inCall, lower, lowest, held, Nat.le_of_lt below, ownedToo, same⟩
  refine ⟨?_, ?_, ?_⟩
  · intro address object found value member
    exact secure.lasting_of_heap found member
  · intro slot member target inside
    rcases @frames 0 _ rfl slot member target inside with outlives | ⟨inCall, -⟩
    · exact outlives
    · exact absurd inCall (Nat.lt_irrefl 0)
  · intro depth frame found slot member target inside
    rcases frames found slot member target inside with
      outlives | ⟨-, lower, owner, held, below, owned, same⟩
    · rcases outlives with inHeap | inRoot
      · exact .inl inHeap
      · exact .inr ⟨0, storage.root, Nat.zero_le _, rfl, inRoot⟩
    · obtain ⟨frame, live, content, present, rfl⟩ := owned.frame
      exact .inr ⟨lower, frame, below, live, content, present, same⟩

theorem Secure.empty : empty.Secure facts := by
  refine ⟨.empty, ?_, ?_⟩
  · intro address object found
    rw [objectAt?_empty] at found
    cases found
  · intro depth function slot inCall owned
    have atRoot : depth ≤ 0 := owned.depth_le
    exact absurd inCall (Nat.not_lt.mpr atRoot)

end Storage

namespace Simulator

variable {program : Program} {config : Config} {signal : AbortSignal} {call : CompletedCall}

/-- Storage is secure wherever a first run ends, and no frame that is gone is the reason. -/
theorem ending_secure (accepted : program.Accepted config.entry)
    (classified : config.placementPolicy = .classified)
    (fits : (signalled program config signal).ending.2.storage.Fits) :
    (signalled program config signal).ending.2.storage.Secure
        (program.escapeFacts config.escapeMode) ∧
      ∀ halt, (signalled program config signal).ending.1 = .error halt → halt.Grounded := by
  let audit := program.audit accepted classified fun _ => False
  have calls := audit.invoke_calls audit.model.maxCallDepth
  have atRoot : Audit.AtRoot .empty := ⟨fun inCall => inCall rfl, rfl⟩
  have ended : audit.Ends .empty (fun _ _ => True) (signalled program config signal).ending :=
    Audit.run_leads calls atRoot _ rfl .empty
  generalize (signalled program config signal).ending = last at ended fits
  cases ended with
  | overflow full => exact absurd fits full
  | left_open isOpen => exact isOpen.elim
  | halted grounded secure =>
      refine ⟨secure, ?_⟩
      rintro halt ⟨⟩
      exact grounded
  | done secure grown result => exact ⟨secure, nofun⟩

/-- What a call below the entry function hands back lasts. -/
theorem nested_lasting (accepted : program.Accepted config.entry)
    (classified : config.placementPolicy = .classified)
    (stopped : ∀ halt, exec (Evaluator.run ⟨Model.new program config,
      (Model.new program config).invokeUntil call halt (Model.new program config).maxCallDepth⟩)
        (signalled program config signal).machine = (.error halt, call.after))
    (fits : call.after.storage.Fits) :
    ∀ value, call.result = some value → call.after.storage.Lasting value := by
  let halt : Halt := .error (.fault (.dangling 0) default)
  let audit := program.audit accepted classified fun _ =>
    ∀ value, call.result = some value → call.after.storage.Lasting value
  have calls : audit.Calls ⟨audit.model, audit.model.invokeUntil call halt
      audit.model.maxCallDepth⟩ :=
    Audit.watched_calls id _
  have atRoot : Audit.AtRoot .empty := ⟨fun inCall => inCall rfl, rfl⟩
  have ended : audit.Ends .empty (fun _ _ => True)
      (exec (Evaluator.run ⟨Model.new program config, (Model.new program config).invokeUntil call halt
        (Model.new program config).maxCallDepth⟩) (signalled program config signal).machine) :=
    Audit.run_leads calls atRoot _ rfl .empty
  rw [stopped halt] at ended
  cases ended with
  | overflow full => exact absurd fits full
  | left_open isOpen => exact isOpen
  | halted grounded _ => exact grounded.elim

/-- What the entry function hands back lasts. -/
theorem entry_lasting {function : FunctionDef} {before after : Machine} {result : Option Value}
    (accepted : program.Accepted config.entry)
    (classified : config.placementPolicy = .classified)
    (globals : exec ((Model.new program config).evaluator.declareGlobals 0 program.globals)
      (signalled program config signal).machine = (.ok (), before))
    (found : (Model.new program config).function? config.entry = some function)
    (ran : exec ((Model.new program config).evaluator.runEntry function) before =
      (.ok result, after))
    (fits : after.storage.Fits) :
    ∀ value, result = some value → after.storage.Lasting value := by
  let audit := program.audit accepted classified fun _ => False
  have calls := audit.invoke_calls audit.model.maxCallDepth
  have atRoot : Audit.AtRoot .empty := ⟨fun inCall => inCall rfl, rfl⟩
  have start : before.storage.Secure audit.facts := by
    have room : before.storage.Fits :=
      Run.Stepwise.fits ((Model.new program config).evaluator.runEntry function)
        (by rw [ran]; exact fits)
    have ended : audit.Ends .empty (fun after _ => Audit.AtRoot after)
        (exec ((Model.new program config).evaluator.declareGlobals 0 program.globals)
          (signalled program config signal).machine) :=
      Audit.declareGlobals_leads calls 0 atRoot audit.settledGlobals _ rfl .empty
    rw [globals] at ended
    cases ended with
    | overflow full => exact absurd room full
    | done secure _ _ => exact secure
  have ended : audit.Ends before.storage (fun after result =>
      ∀ value, result = some value → after.Lasting value)
      (exec ((Model.new program config).evaluator.runEntry function) before) :=
    Audit.runEntry_leads calls found before rfl start
  rw [ran] at ended
  cases ended with
  | overflow full => exact absurd fits full
  | done _ _ lasting => exact lasting

/-- Under the classifying policy no slot points to one that goes before it, at every statement
boundary of a first run and after it, and what a completed call hands back outlives every call. So no
run comes upon a slot of a frame that is gone. -/
theorem escape_sound (checked : program.check config.entry = .ok ())
    (classified : config.placementPolicy = .classified)
    (fits : (signalled program config signal).ending.2.storage.Fits) :
    let simulator := signalled program config signal
    simulator.ending.2.storage.Nested ∧ simulator.run.2.storage.Nested ∧
      (∀ call, simulator.Executes call → call.after.storage.Fits →
        ∀ value, call.result = some value → call.after.storage.Lasting value) ∧
      FaultKind.danglingPointer ∉ simulator.run.2.panics.map (·.kind) ∧
      FaultKind.danglingPointer ∉ simulator.run.2.machine.trace.faults := by
  intro simulator
  have accepted := Program.accepted_of_check checked
  obtain ⟨secure, grounded⟩ := ending_secure accepted classified fits
  have noFault : ∀ {kind : FaultKind}, (kind ∈ simulator.run.2.panics.map (·.kind) ∨
      kind ∈ simulator.run.2.machine.trace.faults) → kind ≠ .danglingPointer := by
    intro kind shown
    obtain ⟨cause, location, rfl, ended⟩ := fault_of_run shown
    cases cause with
    | dangling address => exact (grounded _ ended).elim
    | _ => nofun
  refine ⟨secure.nested, ?_, ?_, fun shown => noFault (.inl shown) rfl,
    fun shown => noFault (.inr shown) rfl⟩
  · rcases storage_run program config signal with same | same | same
    · exact same ▸ secure.nested
    · exact same ▸ secure.sweep.1.nested
    · exact same ▸ (Storage.Secure.empty :
        Storage.Secure _ (program.escapeFacts config.escapeMode)).nested
  · intro call executed room
    cases executed with
    | nested _ stopped => exact nested_lasting accepted classified stopped room
    | entry function before result after globals found ran =>
        exact entry_lasting accepted classified globals found ran room

/-- A call that stores through its parameter into a local of the entry function. -/
def lendingCallee : FunctionDef :=
  .new "bump" [⟨"p", .pointer⟩] [.store (.var "p") (.lit (.int 1))]

def lendingEntry : FunctionDef :=
  .new "main" [] [.declare (.new "x" .value none), .call "bump" [.addrOf (.var "x")]]

def lendingProgram : Program := ⟨[], [lendingEntry, lendingCallee]⟩

/-- The run stops within the call. No local leaks, so everything is on the stack. -/
def lending : Simulator :=
  signalled lendingProgram { Config.default with escapeMode := .interprocedural } ⟨false, some 2⟩

theorem lendingProgram_checked : lendingProgram.check "main" = .ok () := by
  cbv

theorem lending_fits : lending.ending.2.storage.Fits := by
  have slots : lending.ending.2.storage.nextStackAddress = stackStart + 2 * slotSize := by cbv
  unfold Storage.Fits
  rw [slots]
  decide

/-- The parameter points to the slot of the frame below. -/
theorem lending_points : (lending.ending.2.storage.frame? 2).map (·.slots.map (·.value)) =
    some [.pointerTo (.ofAddress stackStart)] := by
  cbv

theorem escape_sound_lending :
    lendingProgram.check "main" = .ok () ∧ lending.ending.2.storage.Fits ∧
      (lending.ending.2.storage.frame? 2).map (·.slots.map (·.value)) =
        some [.pointerTo (.ofAddress stackStart)] ∧
      lending.ending.2.storage.Nested :=
  ⟨lendingProgram_checked, lending_fits, lending_points,
    (escape_sound lendingProgram_checked rfl lending_fits).1⟩

end Simulator

end ReferenceSemantics

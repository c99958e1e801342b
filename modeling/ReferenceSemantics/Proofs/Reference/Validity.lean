import ReferenceSemantics.Proofs.Reference.Confinement
import ReferenceSemantics.Proofs.Run.Ending
import ReferenceSemantics.Proofs.Storage.Contents

set_option autoImplicit false

/-!
References stay valid.

With everything admitted, confinement says no more than soundness. So storage is sound at every
statement boundary, no run comes across an address that designates something else than a value says,
and an append within capacity finds all its cells.
-/

namespace ReferenceSemantics

namespace Storage

variable {storage : Storage}

/-- A value in storage: in a slot of a live frame or in an object of the heap. -/
def Holds (storage : Storage) (value : Value) : Prop :=
  (∃ frame ∈ storage.frames, ∃ slot ∈ frame.slots, slot.value = value) ∨
    ∃ address object, storage.heap.get? address = some object ∧ value ∈ object.contents

theorem Sound.holds (sound : storage.Sound) {value : Value} (held : storage.Holds value) :
    storage.WellReferenced value := by
  rcases held with ⟨frame, member, slot, owned, rfl⟩ | ⟨address, object, found, member⟩
  · have present := sound.coherent.objectAt?_of_mem
      (List.mem_flatMap.mpr ⟨frame, member, owned⟩ : slot ∈ storage.stackSlots)
    exact sound.valid present slot.value (List.mem_singleton.mpr rfl)
  · exact sound.valid (sound.coherent.objectAt?_of_get? found) value member

theorem Sound.confined (start : Storage) (sound : storage.Sound) :
    Confined start 0 (fun _ => True) storage :=
  ⟨sound, Nat.succ_pos _, rfl, fun _ _ _ _ _ _ => trivial, fun unknown => absurd trivial unknown,
    fun _ _ => ⟨fun _ _ => trivial, fun _ _ => trivial⟩, fun _ _ => trivial⟩

/-! ### Appending within capacity -/

/-- An append to a header succeeds as long as there is room, and every value is then an element. -/
def AppendsWithin (storage : Storage) (header : Value) (values : List Value) : Prop :=
  ∀ len cap offset block, header = .referenceHeader len cap offset block →
    len + values.length ≤ cap →
      ∃ changed,
        storage.append header values =
            .ok (.referenceHeader (len + values.length) cap offset block, changed) ∧
          ∀ index value, values[index]? = some value →
            changed.element (.referenceHeader (len + values.length) cap offset block)
              (len + index : Nat) = .ok value

theorem WellReferenced.appendsWithin {header : Value} (valid : storage.WellReferenced header)
    (values : List Value) : storage.AppendsWithin header values := by
  rintro len cap offset block rfl room
  cases values with
  | nil => exact ⟨storage, by cases block <;> rfl, fun _ _ absurdity => nomatch absurdity⟩
  | cons first rest =>
      cases block with
      | none =>
          rw [WellReferenced] at valid
          obtain ⟨rfl, rfl, rfl⟩ := valid
          simp at room
      | some address =>
          rw [WellReferenced] at valid
          obtain ⟨block, read, within, ends⟩ := valid
          generalize listed : first :: rest = values at room
          have inHeap := block_eq_ok_iff.mp read
          let grown : Block := { block with cells := overwrite (offset + len) block.cells values }
          have written : storage.append (.referenceHeader len cap offset (some address)) values =
              .ok (.referenceHeader (len + values.length) cap offset (some address),
                { storage with
                  heap := storage.heap.set address (.block grown) }) := by
            subst listed
            simp only [append, read, Except.ok_bind, if_pos room]
            rfl
          refine ⟨_, written, fun index value here => ?_⟩
          have inside : index < values.length := (List.getElem?_eq_some_iff.mp here).1
          refine element_eq_ok.mpr ⟨address, _, grown, cellIndex_eq_ok.mpr
            ⟨_, _, _, rfl, by omega, by omega, rfl⟩, block_eq_ok_iff.mpr ?_, ?_⟩
          · exact (Heap.get?_set _ _ inHeap).trans (if_pos rfl)
          · have cell : offset + Int.toNat (len + index : Nat) = offset + len + index := by
              omega
            rw [cell, getElem?_overwrite (by omega), if_pos (by omega), Nat.add_sub_cancel_left, here]

end Storage

open Storage

/-- The simulation of a model by itself on sound storage. -/
def soundness (model : Model) : ProgramSimulation :=
  confinement model .empty 0 (fun _ => True) (fun _ _ => trivial) fun _ => False

theorem soundness_related (model : Model) {machine : Machine} (sound : machine.storage.Sound) :
    (soundness model).Related machine.storage machine machine :=
  ⟨⟨rfl, rfl, sound.confined _⟩, rfl, trivial⟩

/-- A computation that agrees with itself keeps storage sound. -/
theorem Simulation.Ends.sound {model : Model} {α : Type} {world : Storage}
    {post : Storage → α → α → Prop} {last last' : Except Halt α × Machine}
    (ended : (soundness model).Ends world post last last') (twin : last = last')
    (fits : last.2.storage.Fits) :
    last.2.storage.Sound ∧ (∀ halt, last.1 = .error halt → halt.Valid) ∧
      ∀ value, last.1 = .ok value → post last.2.storage value value := by
  cases ended with
  | overflow full => exact absurd fits full
  | left_open isOpen => exact isOpen.elim
  | halted next valid related =>
      obtain ⟨rfl, -, confined⟩ := related.storages
      refine ⟨confined.sound, ?_, nofun⟩
      rintro halt ⟨⟩
      exact valid
  | done next grown related result =>
      cases twin
      obtain ⟨rfl, -, confined⟩ := related.storages
      refine ⟨confined.sound, nofun, ?_⟩
      rintro value ⟨⟩
      exact result

namespace Simulator

/-- Storage is sound wherever a first run ends. -/
theorem ending_sound (program : Program) (config : Config) (signal : AbortSignal)
    (fits : (signalled program config signal).ending.2.storage.Fits) :
    (signalled program config signal).ending.2.storage.Sound ∧
      ∀ halt, (signalled program config signal).ending.1 = .error halt → halt.Valid := by
  let model := Model.new program config
  have calls := Simulation.invoke_calls (soundness model).toSimulation model.maxCallDepth
  have fresh : (signalled program config signal).machine.storage.Sound := Sound.empty
  have ended := ProgramSimulation.run_agrees calls (fun inCall => inCall rfl) _ _
    (soundness_related model fresh)
  obtain ⟨sound, valid, -⟩ := ended.sound rfl fits
  exact ⟨sound, valid⟩

/-- Everything that storage holds is well referenced, at every statement boundary of a first run and
after it. So no run ends in an invalid state, and an append within capacity drops no value. -/
theorem references_valid (program : Program) (config : Config) (signal : AbortSignal)
    (fits : (signalled program config signal).ending.2.storage.Fits) :
    let simulator := signalled program config signal
    let storage := simulator.ending.2.storage
    (∀ value, storage.Holds value → storage.WellReferenced value) ∧
      (∀ value, simulator.run.2.storage.Holds value →
        simulator.run.2.storage.WellReferenced value) ∧
      (∀ address target location,
        simulator.run.1 ≠ .error (.runtime (.invalidState address target location))) ∧
      ∀ depth location target values machine operands last, machine.storage = storage →
        Run.exec (Evaluator.appendOperands ⟨simulator.model, simulator.model.invoke depth⟩
          location target values) machine = (.ok operands, last) →
        last.storage.Fits → last.storage.AppendsWithin operands.header operands.values := by
  intro simulator storage
  obtain ⟨sound, valid⟩ := ending_sound program config signal fits
  refine ⟨fun _ => sound.holds, ?_, ?_, ?_⟩
  · rcases storage_run program config signal with same | same | same
    · exact fun _ held => same ▸ sound.holds (same ▸ held)
    · exact fun _ held => same ▸ sound.sweep.holds (same ▸ held)
    · exact fun _ held => same ▸ Sound.empty.holds (same ▸ held)
  · intro address target location failed
    exact valid _ (ending_of_run_error failed).1
  · intro depth location target values machine operands last here evaluated fits
    have start : machine.storage.Sound := here ▸ sound
    have calls := Simulation.invoke_calls (soundness simulator.model).toSimulation depth
    have ended : (soundness simulator.model).Ends machine.storage
        (soundness simulator.model).Operands
        (Run.exec (Evaluator.appendOperands ⟨simulator.model, simulator.model.invoke depth⟩
          location target values) machine)
        (Run.exec (Evaluator.appendOperands ⟨simulator.model, simulator.model.invoke depth⟩
          location target values) machine) :=
      Simulation.appendOperands_agrees location calls target values _ _
        (soundness_related simulator.model start)
    rw [evaluated] at ended
    obtain ⟨-, -, linked⟩ := ended.sound rfl fits
    exact (linked_iff.mp (linked operands rfl).header).2.1.appendsWithin operands.values

/-- A slice with a spare cell and an append to it, seen at the boundary after the append. -/
def appending : Simulator :=
  signalled
    (Program.empty.withFunction <| .new "main" []
      [.declare (.new "xs" .referenceHeader (some (.sliceLit [.lit (.int 1)] (some 2)))),
        .append (.var "xs") [.lit (.int 2)],
        .ret none])
    { Config.default with placementPolicy := .forceHeap } ⟨false, some 2⟩

theorem appending_fits : appending.ending.2.storage.Fits := by
  unfold Storage.Fits
  decide +kernel

theorem appending_holds :
    appending.ending.2.storage.Holds (.referenceHeader 2 2 0 (some heapStart)) := by
  have slot : (appending.ending.2.storage.heap.get? (heapStart + slotSize)).map
      HeapObject.contents = some [.referenceHeader 2 2 0 (some heapStart)] := by rfl
  obtain ⟨object, found, contents⟩ := Option.map_eq_some_iff.mp slot
  exact .inr ⟨_, object, found, contents ▸ List.mem_singleton.mpr rfl⟩

theorem references_valid_appending :
    appending.ending.2.storage.Fits ∧
      appending.ending.2.storage.Holds (.referenceHeader 2 2 0 (some heapStart)) ∧
      appending.ending.2.storage.WellReferenced (.referenceHeader 2 2 0 (some heapStart)) :=
  ⟨appending_fits, appending_holds, (references_valid _ _ _ appending_fits).1 _ appending_holds⟩

end Simulator

end ReferenceSemantics

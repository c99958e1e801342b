import ReferenceSemantics.Proofs.Storage.Ledger
import ReferenceSemantics.Proofs.Storage.Regions

set_option autoImplicit false

/-!
The ledger of the stack represents the frames after every history.

A history brings the ledger up to date operation by operation: a slot created on the stack is
inserted, a name that is declared is bound, a pushed frame opens a table of names, and a popped one
takes its own slots and names away. No other operation touches the ledger, and none needs room: all
of this also holds when the stack has grown into the heap.
-/

namespace ReferenceSemantics

/-- The address that a slot of the heap has as its own. -/
def HeapObject.slotAddress? : HeapObject → Option Address
  | slot s => some s.address
  | block _ | table _ => none

/-- Slots of the heap have the addresses at which they are kept. -/
def Heap.Keyed (heap : Heap) : Prop :=
  ∀ {address object own}, heap.get? address = some object →
    object.slotAddress? = some own → own = address

namespace Storage

def layouts (storage : Storage) : List Layout := storage.frames.map Frame.layout

/-- Of the frames only what their slots hold is different, and the slots of the heap are kept. -/
structure Settles (storage changed : Storage) : Prop where
  layouts : changed.layouts = storage.layouts
  stackEnd : changed.nextStackAddress = storage.nextStackAddress
  slots : ∀ {address slot}, storage.heap.get? address = some (.slot slot) →
    ∃ later, changed.heap.get? address = some (.slot later)
  keyed : storage.heap.Keyed → changed.heap.Keyed

end Storage

namespace Ledger

/-- A slot is created, at the end of the current frame if it is on the stack. -/
def allocate (ledger : Ledger) (storage : Storage) : Placement → Ledger
  | .stack =>
      ledger.insert storage.nextStackAddress (storage.depth - 1) storage.current.slots.length
  | .heap => ledger

/-- The ledger after an operation on the storage. -/
def perform (ledger : Ledger) (storage : Storage) : Storage.Operation → Ledger
  | .pushFrame _ _ => ledger.enter
  | .popFrame =>
      if storage.depth ≤ 1 then ledger else ledger.leave (storage.current.slots.map (·.address))
  | .allocate _ _ _ placement _ => ledger.allocate storage placement
  | .declare name kind site placement value =>
      (ledger.allocate storage placement).bind name
        (storage.allocate name kind site placement value).1.address
  | .discard => .empty
  | _ => ledger

/-- The ledger after a history of the storage. -/
def after (ledger : Ledger) (storage : Storage) : List Storage.Operation → Ledger
  | [] => ledger
  | operation :: history =>
      after (ledger.perform storage operation) (storage.perform operation).2 history

/-- What the operations keep of the ledger, of the heap and of the bindings. -/
structure Keeps (ledger : Ledger) (storage : Storage) : Prop where
  follows : ledger.Follows storage.layouts storage.nextStackAddress
  keyed : storage.heap.Keyed
  wellBound : storage.WellBound

/-- The ledger represents the stack, and every address is in order. -/
structure Represents (ledger : Ledger) (storage : Storage) : Prop where
  root : storage.frames.head? = some storage.root ∧ storage.root.function = globalsFrame
  index : ∀ address depth place, ledger.index address = some (depth, place) ↔
    ∃ frame slot, storage.frames[depth]? = some frame ∧ frame.slots[place]? = some slot ∧
      slot.address = address
  located : ∀ address, storage.locate? address = ledger.index address
  distinct : (storage.stackAddresses ++ ledger.popped).Nodup
  handedOut : ∀ address ∈ storage.stackAddresses ++ ledger.popped,
    address % slotSize = 0 ∧ address < storage.nextStackAddress
  heapSlots : ∀ address slot, storage.heap.get? address = some (.slot slot) →
    slot.address = address
  heapKeys : ∀ address, storage.heap.contains address → address < storage.heap.nextAddress
  names : List.Forall₂ NameTable.Lists ledger.names (storage.frames.reverse.map (·.bindings))
  bound : ∀ frame ∈ storage.frames, ∀ binding ∈ frame.bindings,
    binding.2 ∈ frame.slots.map (·.address) ∨
      ∃ slot, storage.heap.get? binding.2 = some (.slot slot)

end Ledger

/-! ### Operations that the ledger does not see -/

namespace Storage

variable {storage changed : Storage}

namespace Settles

theorem refl (storage : Storage) : storage.Settles storage :=
  ⟨rfl, rfl, fun found => ⟨_, found⟩, id⟩

theorem heapSet {address : Address} {old new : HeapObject}
    (found : storage.heap.get? address = some old) (same : new.slotAddress? = old.slotAddress?) :
    storage.Settles { storage with heap := storage.heap.set address new } := by
  refine ⟨rfl, rfl, fun {other slot} here => ?_, fun keyed other object own here own_eq => ?_⟩
  · dsimp only
    rw [Heap.get?_set new other found]
    split
    next equal =>
      subst equal
      obtain rfl : old = .slot slot := Option.some.inj (found.symm.trans here)
      cases new with
      | slot later => exact ⟨later, rfl⟩
      | block _ | table _ => cases same
    next => exact ⟨slot, here⟩
  · rw [Heap.get?_set new other found] at here
    split at here
    next equal =>
      cases here
      exact equal ▸ keyed found (same ▸ own_eq)
    next => exact keyed here own_eq

theorem heapPush {object : HeapObject}
    (here : ∀ own, object.slotAddress? = some own → own = storage.heap.nextAddress) :
    storage.Settles { storage with heap := storage.heap.push object } := by
  refine ⟨rfl, rfl, fun found => ⟨_, Heap.get?_push_of_get? found object⟩,
    fun keyed address other own found own_eq => ?_⟩
  rw [Heap.get?_push] at found
  split at found
  next last =>
    cases found
    exact (here own own_eq).trans last.symm
  next => exact keyed found own_eq

/-- Blocks and tables may be added. -/
theorem heapAdd {object : HeapObject} (unslotted : object.slotAddress? = none) :
    storage.Settles { storage with heap := storage.heap.push object } := by
  refine heapPush fun own same => ?_
  rw [unslotted] at same
  cases same

/-- A slot may be replaced by one of the same address. -/
theorem setSlot {address : Address} {old new : Slot} (read : storage.slot address = .ok old)
    (same : new.address = old.address) : storage.Settles (storage.setSlot address new) := by
  rcases storage.owned_or_absent address with ⟨slot, ⟨owned⟩⟩ | ⟨absent, -, replaced⟩
  · obtain rfl : slot = old := Except.ok.inj (owned.read.symm.trans read)
    obtain ⟨frames, heap, stackEnd⟩ := owned.replaced new
    refine ⟨?_, stackEnd, fun found => ⟨_, heap ▸ found⟩, fun keyed => heap ▸ keyed⟩
    rw [Storage.layouts, Storage.layouts, frames, owned.frames]
    simp [Frame.layout, same]
  · have inHeap : storage.heap.get? address = some (.slot old) := by
      simpa [objectAt?, absent] using slot_ok_iff.mp read
    rw [replaced]
    exact heapSet inHeap (congrArg some same)

theorem append {header moved : Value} {values : List Value}
    (appended : storage.append header values = .ok (moved, changed)) :
    storage.Settles changed := by
  cases append_eq_ok appended with
  | nothing => exact refl storage
  | inPlace len cap offset address block values read room =>
      exact heapSet (block_eq_ok_iff.mp read) rfl
  | grown | first => exact heapAdd rfl

theorem sweep (storage : Storage) : storage.Settles storage.sweep.2 := by
  refine ⟨rfl, rfl, fun found => ⟨_, (Heap.get?_markUnreachable _ _ _).trans found⟩, ?_⟩
  intro keyed address object own found
  exact keyed ((Heap.get?_markUnreachable _ _ _).symm.trans found)

/-- An operation that gives a storage or fails. -/
theorem getD {result : Except StorageError Storage}
    (settles : ∀ changed, result = .ok changed → storage.Settles changed) :
    storage.Settles (result.toOption.getD storage) := by
  cases result with
  | error reason => exact refl storage
  | ok changed => exact settles changed rfl

/-- Frames of the same layout bind the same names to the same addresses. -/
theorem wellBound (settles : storage.Settles changed) (wellBound : storage.WellBound) :
    changed.WellBound := by
  intro frame member
  have laidOut : frame.layout ∈ storage.layouts :=
    settles.layouts ▸ List.mem_map_of_mem member
  obtain ⟨old, before, same⟩ := List.mem_map.mp laidOut
  obtain ⟨-, addresses, bindings⟩ := Layout.mk.inj same
  have kept := (wellBound old before).inHeap settles.slots
  exact ⟨bindings ▸ kept.once, fun binding bound =>
    addresses ▸ kept.owned binding (bindings ▸ bound)⟩

end Settles

/-! ### The current frame -/

/-- The frames are those below the current one and the current one. -/
theorem layouts_eq (storage : Storage) :
    storage.layouts = storage.frames.dropLast.map Frame.layout ++ [storage.current.layout] := by
  rw [layouts, frames_eq storage, List.map_append, List.dropLast_concat]
  rfl

theorem layouts_modifyCurrent (storage : Storage) (f : Frame → Frame) :
    (storage.modifyCurrent f).layouts =
      storage.frames.dropLast.map Frame.layout ++ [(f storage.current).layout] := by
  rw [layouts, frames_modifyCurrent, List.map_append]
  rfl

end Storage

namespace Ledger.Keeps

variable {ledger : Ledger} {storage changed : Storage}

theorem settles (keeps : ledger.Keeps storage) (settles : storage.Settles changed) :
    ledger.Keeps changed where
  follows := settles.layouts ▸ settles.stackEnd ▸ keeps.follows
  keyed := settles.keyed keeps.keyed
  wellBound := settles.wellBound keeps.wellBound

theorem empty : Ledger.empty.Keeps .empty where
  follows := .empty none
  keyed found := by simp [Storage.empty, Heap.empty, Heap.get?, Heap.entry?] at found
  wellBound := .empty

theorem allocate (keeps : ledger.Keeps storage) (name : String) (kind : Kind)
    (site : Option SiteId) (placement : Placement) (value : Value) :
    (ledger.allocate storage placement).Keeps
      (storage.allocate name kind site placement value).2 := by
  have bound := keeps.wellBound.step (.allocate name kind site placement value)
  cases placement with
  | heap => exact keeps.settles (.heapPush fun own same => (Option.some.inj same).symm)
  | stack =>
      let slot : Slot := ⟨name, kind, value, site, storage.nextStackAddress⟩
      have inserted := (storage.layouts_eq ▸ keeps.follows).insert
      have height : storage.depth - 1 = (storage.frames.dropLast.map Frame.layout).length := by
        simp
      have size : storage.current.slots.length = storage.current.layout.addresses.length := by
        simp [Frame.layout]
      have top : (storage.current.push slot).layout =
          storage.current.layout.push storage.nextStackAddress := by
        simp [Frame.layout, Frame.push, Layout.push, slot]
      refine ⟨?_, ?_, bound⟩
      · rw [Ledger.allocate, height, size]
        show Ledger.Follows _ (storage.modifyCurrent (·.push slot)).layouts _
        rw [Storage.layouts_modifyCurrent, top]
        exact inserted
      · exact (storage.heap_modifyCurrent (·.push slot)) ▸ keeps.keyed

theorem declare (keeps : ledger.Keeps storage) (name : String) (kind : Kind)
    (site : Option SiteId) (placement : Placement) (value : Value) :
    ((ledger.allocate storage placement).bind name
      (storage.allocate name kind site placement value).1.address).Keeps
      (storage.declare name kind site placement value).2 := by
  have bound := keeps.wellBound.step (.declare name kind site placement value)
  have allocated := keeps.allocate name kind site placement value
  unfold Storage.declare at bound ⊢
  generalize storage.allocate name kind site placement value = result at allocated bound
  obtain ⟨ref, middle⟩ := result
  refine ⟨?_, (middle.heap_modifyCurrent _) ▸ allocated.keyed, bound⟩
  have named := (middle.layouts_eq ▸ allocated.follows).bind name ref.address
  rwa [← middle.layouts_modifyCurrent (·.bind name ref.address),
    ← middle.nextStackAddress_modifyCurrent (·.bind name ref.address)] at named

theorem pushFrame (keeps : ledger.Keeps storage) (function : String)
    (callSite : Option Location) :
    ledger.enter.Keeps (storage.pushFrame function callSite) where
  follows := by
    rw [Storage.layouts, Storage.frames_pushFrame, List.map_append]
    exact keeps.follows.enter function callSite
  keyed := keeps.keyed
  wellBound := keeps.wellBound.step (.pushFrame function callSite)

theorem popFrame (keeps : ledger.Keeps storage) (called : storage.InCall) :
    (ledger.leave (storage.current.slots.map (·.address))).Keeps storage.popFrame := by
  obtain ⟨heap, stackEnd, -⟩ := Storage.heap_popFrame storage
  refine ⟨?_, heap ▸ keeps.keyed, keeps.wellBound.step .popFrame⟩
  have long := Storage.inCall_iff.mp called
  have rooted : storage.frames.dropLast.map Frame.layout ≠ [] := by
    rw [ne_eq, List.map_eq_nil_iff, ← List.length_eq_zero_iff, List.length_dropLast]
    omega
  rw [Storage.layouts, Storage.frames_popFrame called, stackEnd]
  exact (storage.layouts_eq ▸ keeps.follows).leave rooted

theorem perform (keeps : ledger.Keeps storage) (operation : Storage.Operation) :
    (ledger.perform storage operation).Keeps (storage.perform operation).2 := by
  cases operation with
  | pushFrame function callSite => exact keeps.pushFrame function callSite
  | popFrame =>
      simp only [Ledger.perform, Storage.perform]
      split
      next alone =>
        have outside : ¬ storage.InCall := by
          rwa [Storage.inCall_iff, Storage.length_frames, Nat.not_lt]
        rwa [Storage.popFrame_of_not_inCall outside]
      next called =>
        apply keeps.popFrame
        rwa [Storage.inCall_iff, Storage.length_frames, ← Nat.not_le]
  | allocate name kind site placement value => exact keeps.allocate name kind site placement value
  | declare name kind site placement value => exact keeps.declare name kind site placement value
  | amend address name kind site value =>
      apply keeps.settles
      simp only [Storage.perform]
      split
      next slot read => exact .setSlot read rfl
      next => exact .refl storage
  | store ref value =>
      refine keeps.settles (.getD fun changed stored => ?_)
      obtain ⟨slot, whole, read, -, rfl⟩ := Storage.store_eq_ok.mp stored
      exact .setSlot read rfl
  | setElement header index value =>
      refine keeps.settles (.getD fun changed done => ?_)
      obtain ⟨address, cell, block, -, read, -, rfl⟩ := Storage.setElement_eq_ok.mp done
      exact .heapSet (Storage.block_eq_ok_iff.mp read) rfl
  | append header values =>
      apply keeps.settles
      simp only [Storage.perform]
      split
      next moved changed appended => exact .append appended
      next => exact .refl storage
  | reslice header low high => exact keeps
  | allocBlock cells len zero => exact keeps.settles (.heapAdd rfl)
  | allocTable entries => exact keeps.settles (.heapAdd rfl)
  | tableInsert header key value =>
      refine keeps.settles (.getD fun changed done => ?_)
      obtain ⟨address, table, -, read, rfl⟩ := Storage.tableInsert_eq_ok.mp done
      exact .heapSet (Storage.table_eq_ok_iff.mp read) rfl
  | sweep => exact keeps.settles (.sweep storage)
  | discard => exact .empty

theorem after (keeps : ledger.Keeps storage) (history : List Storage.Operation) :
    (ledger.after storage history).Keeps (storage.after history) := by
  induction history generalizing ledger storage with
  | nil => exact keeps
  | cons operation history inductionHypothesis =>
      exact inductionHypothesis (keeps.perform operation)

end Ledger.Keeps

/-! ### What the ledger says -/

namespace Storage

variable {storage below : Storage} {address : Address} {depth place : Nat}

theorem at_layouts_iff : Layout.At storage.layouts address depth place ↔
    ∃ frame slot, storage.frames[depth]? = some frame ∧ frame.slots[place]? = some slot ∧
      slot.address = address := by
  unfold Layout.At layouts
  rw [List.getElem?_map]
  constructor
  · rintro ⟨layout, found, here⟩
    obtain ⟨frame, inFrames, rfl⟩ := Option.map_eq_some_iff.mp found
    rw [Frame.layout, List.getElem?_map] at here
    obtain ⟨slot, inSlots, rfl⟩ := Option.map_eq_some_iff.mp here
    exact ⟨frame, slot, inFrames, inSlots, rfl⟩
  · rintro ⟨frame, slot, inFrames, inSlots, rfl⟩
    refine ⟨frame.layout, congrArg (Option.map _) inFrames, ?_⟩
    rw [Frame.layout, List.getElem?_map, inSlots]
    rfl

theorem addresses_layouts (storage : Storage) :
    storage.layouts.flatMap (·.addresses) = storage.stackAddresses := by
  simp [layouts, stackAddresses, stackSlots, List.map_flatMap, List.flatMap_map, Frame.layout]

theorem at_of_locate? (located : storage.locate? address = some (depth, place)) :
    Layout.At storage.layouts address depth place := by
  obtain ⟨before, frame, above, first, slot, rest, frames, rfl, slots, rfl, here, -⟩ :=
    locateIn_eq_some located
  exact at_layouts_iff.mpr ⟨frame, slot, by simp [frames], by simp [slots], here⟩

end Storage

theorem Ledger.Keeps.represents {ledger : Ledger} {storage : Storage}
    (keeps : ledger.Keeps storage) : ledger.Represents storage where
  root := by
    have root := keeps.follows.root
    exact ⟨rfl, by simpa [Storage.layouts, Storage.frames, Frame.layout] using root⟩
  index address depth place := (keeps.follows.index ..).trans Storage.at_layouts_iff
  located address := by
    cases located : storage.locate? address with
    | some found => exact ((keeps.follows.index ..).mpr (Storage.at_of_locate? located)).symm
    | none =>
        symm
        rw [Option.eq_none_iff_forall_ne_some]
        rintro ⟨depth, place⟩ indexed
        have there := Layout.mem_addresses_iff.mpr ⟨_, _, (keeps.follows.index ..).mp indexed⟩
        rw [storage.addresses_layouts, ← Storage.locate?_isSome_iff, located] at there
        cases there
  distinct := storage.addresses_layouts ▸ keeps.follows.distinct
  handedOut := storage.addresses_layouts ▸ keeps.follows.handedOut
  heapSlots address slot found := keeps.keyed found rfl
  heapKeys address inHeap := by
    rw [Storage.contains_eq_isSome, Option.isSome_iff_exists] at inHeap
    obtain ⟨object, found⟩ := inHeap
    exact (Heap.lt_nextAddress_of_get? found).2
  names := by
    have names := keeps.follows.names
    rwa [Storage.layouts, ← List.map_reverse, List.map_map] at names
  bound frame member := (keeps.wellBound frame member).owned

namespace Ledger.Represents

variable {ledger : Ledger} {storage below : Storage}

/-- A slot is read where it says it is. -/
theorem address_of_slot (represents : ledger.Represents storage) {address : Address} {slot : Slot}
    (read : storage.slot address = .ok slot) : slot.address = address := by
  rw [Storage.slot_ok_iff, Storage.objectAt?] at read
  cases owned : storage.stackSlot? address with
  | some own =>
      rw [owned] at read
      cases read
      exact (Storage.stackSlot?_some owned).2
  | none =>
      rw [owned] at read
      exact represents.heapSlots address slot read

/-- Of the slots that were read, exactly those of the popped frame are read no longer. -/
theorem slot_popFrame (represents : ledger.Represents storage) (called : storage.InCall)
    (address : Address) :
    storage.popFrame.slot address =
      if address ∈ storage.current.slots.map (·.address) then storage.heapSlot address
      else storage.slot address := by
  have slots := Storage.stackSlots_popFrame called
  have split : storage.stackSlot? address = (storage.popFrame.stackSlot? address).or
      (storage.current.slots.find? (·.address == address)) := by
    rw [Storage.stackSlot?, slots, List.find?_append, Storage.stackSlot?]
  have heap : storage.popFrame.heap = storage.heap := (Storage.heap_popFrame storage).1
  split
  next own =>
    have apart := (List.nodup_append.mp represents.distinct).1
    rw [Storage.stackAddresses, slots, List.map_append, List.nodup_append] at apart
    have gone : storage.popFrame.stackSlot? address = none := by
      refine List.find?_eq_none.mpr fun slot member => ?_
      simpa using apart.2.2 slot.address (List.mem_map_of_mem member) address own
    rw [Storage.slot_eq, Storage.objectAt?, gone, heap]
    rfl
  next other =>
    have absent : storage.current.slots.find? (·.address == address) = none := by
      refine List.find?_eq_none.mpr fun slot member same => other ?_
      exact (beq_iff_eq.mp same) ▸ List.mem_map_of_mem member
    rw [Storage.slot_eq, Storage.slot_eq, Storage.objectAt?, Storage.objectAt?, heap, split, absent,
      Option.or_none]

end Ledger.Represents

/-! ### Histories -/

/-- The ledger represents every storage that a history leads to. So every bound name leads to a
slot, and a popped frame takes exactly its own slots away. -/
theorem Ledger.represents_after (history : List Storage.Operation) :
    let storage := Storage.empty.after history
    (Ledger.empty.after .empty history).Represents storage ∧
      (∀ frame ∈ storage.frames, ∀ name address, frame.lookup name = some address →
        ∃ slot, storage.slot address = .ok slot ∧ slot.address = address) ∧
      ∀ frame below, storage.popFrame? = some (frame, below) →
        storage.frames = below.frames ++ [frame] ∧ below.heap = storage.heap ∧
          ∀ address,
            (below.locate? address = if address ∈ frame.slots.map (·.address) then none
              else storage.locate? address) ∧
            below.slot address = if address ∈ frame.slots.map (·.address)
              then storage.heapSlot address else storage.slot address := by
  intro storage
  have keeps := Keeps.empty.after history
  have represents := keeps.represents
  refine ⟨represents, fun frame member name address bound => ?_, fun frame below popped => ?_⟩
  · obtain ⟨slot, read⟩ := keeps.wellBound.reads member (Frame.mem_of_lookup bound)
    exact ⟨slot, read, represents.address_of_slot read⟩
  · obtain ⟨called, rfl, rfl⟩ := Storage.popFrame?_eq_some popped
    have later := (keeps.popFrame called).represents
    refine ⟨?_, (Storage.heap_popFrame storage).1, fun address =>
      ⟨?_, represents.slot_popFrame called address⟩⟩
    · rw [Storage.frames_popFrame called, ← storage.frames_eq]
    · rw [later.located, represents.located]
      rfl

/-- A call with a local on the stack and one in the heap: the one is gone after the call, the other
is not. -/
theorem Ledger.represents_after_called :
    ∃ frame below, (Storage.empty.after [.pushFrame "f" none,
        .declare "x" .value none .stack (.int 1),
        .declare "y" .value none .heap (.int 2)]).popFrame? = some (frame, below) ∧
      below.locate? stackStart = none ∧ below.slot stackStart = .error (.dangling stackStart) ∧
      ∃ slot, below.slot heapStart = .ok slot ∧ slot.address = heapStart := by
  obtain ⟨-, reads, pops⟩ := represents_after [.pushFrame "f" none,
    .declare "x" .value none .stack (.int 1), .declare "y" .value none .heap (.int 2)]
  obtain ⟨slot, read, here⟩ := reads _ (.tail _ (.head _)) "y" heapStart rfl
  obtain ⟨-, -, taken⟩ := pops _ _ rfl
  obtain ⟨notLocated, gone⟩ := taken stackStart
  obtain ⟨-, kept⟩ := taken heapStart
  exact ⟨_, _, rfl, notLocated, gone, slot, kept.trans read, here⟩

/-- A discard starts the addresses over: the one of a slot that went with its frame is not below the
end of the stack any more, and the next slot gets it again. -/
theorem Storage.popped_address_returns :
    ∃ frame below, (empty.after [.pushFrame "f" none,
        .allocate "x" .value none .stack (.int 0)]).popFrame? = some (frame, below) ∧
      stackStart ∈ frame.slots.map (·.address) ∧
      ¬ stackStart < (empty.after [.pushFrame "f" none,
        .allocate "x" .value none .stack (.int 0), .popFrame, .discard]).nextStackAddress ∧
      stackStart ∈ (empty.after [.pushFrame "f" none, .allocate "x" .value none .stack (.int 0),
        .popFrame, .discard, .allocate "x" .value none .stack (.int 0)]).stackAddresses :=
  ⟨_, _, rfl, by decide, by decide, by decide⟩

end ReferenceSemantics

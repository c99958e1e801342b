import Mathlib.Data.List.Nodup
import ReferenceSemantics.Proofs.Run.Step
import ReferenceSemantics.Proofs.Storage.Contents
import ReferenceSemantics.Proofs.Storage.Regions
import ReferenceSemantics.Proofs.Value.Boxes
import ReferenceSemantics.Proofs.Value.Pointees

set_option autoImplicit false

/-!
Storage whose slots hold values of their kinds and whose boxes are canonical.

The kind of a slot is fixed when the slot is created, and as long as the stack does not reach the
heap no address is handed out twice. So what is known of the kind of the slot at an address stays
known, whatever happens to its value. The boxes need no such room.
-/

namespace ReferenceSemantics

namespace Storage

/-- An object at an address: a slot of a live frame, or an object of the heap. -/
def Has (storage : Storage) (address : Address) (object : HeapObject) : Prop :=
  (∃ slot ∈ storage.stackSlots, slot.address = address ∧ object = .slot slot) ∨
    storage.heap.get? address = some object

/-- Nothing is there that was not there before. -/
def Within (storage changed : Storage) : Prop :=
  ∀ address object, changed.Has address object → storage.Has address object

/-- Nothing is there that was not there before, but for an object at the address. -/
def Puts (storage changed : Storage) (address : Address) (object : HeapObject) : Prop :=
  ∀ other present, changed.Has other present →
    storage.Has other present ∨ (other = address ∧ present = object)

/-- An address that has been handed out, whether or not something lives there. -/
def Taken (storage : Storage) (address : Address) : Prop :=
  address < storage.nextStackAddress ∨ (heapStart ≤ address ∧ address < storage.heap.nextAddress)

/-- Only slots of the kind are at the address, now and later. -/
def KindAt (storage : Storage) (address : Address) (kind : Kind) : Prop :=
  storage.Fits → storage.Taken address ∧
    ∀ slot, storage.Has address (.slot slot) → slot.kind = kind

/-- Every slot holds a value of its kind, and every value is in canonical form. -/
structure Regular (storage : Storage) : Prop where
  orderly : storage.Orderly
  canonical : ∀ {address object}, storage.Has address object →
    ∀ value ∈ object.contents, value.Canonical
  kinds : storage.Fits → ∀ {address slot}, storage.Has address (.slot slot) →
    slot.value.kind = slot.kind

variable {storage changed : Storage} {address : Address} {object : HeapObject} {slot : Slot}
  {kind : Kind} {value header key : Value} {ref : SlotRef} {onStack : Bool} {given : Option Address}

theorem has_of_slot (read : storage.slot address = .ok slot) :
    storage.Has address (.slot slot) := by
  have found := slot_ok_iff.mp read
  rw [objectAt?] at found
  cases owned : storage.stackSlot? address with
  | none => exact .inr (by simpa [owned] using found)
  | some held =>
      obtain ⟨member, here⟩ := stackSlot?_some owned
      rw [owned] at found
      exact .inl ⟨held, member, here, (Option.some.inj found).symm⟩

theorem has_of_block {block : Block} (read : storage.block address = .ok block) :
    storage.Has address (.block block) :=
  .inr (block_eq_ok_iff.mp read)

theorem has_of_table {table : Table} (read : storage.table address = .ok table) :
    storage.Has address (.table table) :=
  .inr (table_eq_ok_iff.mp read)

/-! ### What operations put in storage -/

theorem Puts.within {last : Storage} (puts : storage.Puts changed address object)
    (within : changed.Within last) : storage.Puts last address object :=
  fun other present has => puts other present (within other present has)

theorem puts_setSlot (read : storage.slot address = .ok slot) (value : Value) :
    storage.Puts (storage.setSlot address { slot with value }) address
      (.slot { slot with value }) := by
  rcases storage.owned_or_absent address with ⟨old, ⟨owned⟩⟩ | ⟨absent, -, replaced⟩
  · obtain rfl : old = slot := Except.ok.inj (owned.read.symm.trans read)
    obtain ⟨frames, heap, -⟩ := owned.replaced { old with value }
    rintro other present (⟨held, member, here, same⟩ | inHeap)
    · have kept : held ∈ storage.stackSlots ∨ held = { old with value } := by
        rw [stackSlots, frames] at member
        rw [stackSlots, owned.frames]
        simp only [List.flatMap_append, List.flatMap_cons, List.mem_append, List.mem_cons]
          at member ⊢
        rcases member with below | (first | rfl | rest) | above
        · exact .inl (.inl below)
        · exact .inl (.inr (.inl (.inl first)))
        · exact .inr rfl
        · exact .inl (.inr (.inl (.inr (.inr rest))))
        · exact .inl (.inr (.inr above))
      rcases kept with before | rfl
      · exact .inl (.inl ⟨held, before, here, same⟩)
      · exact .inr ⟨here.symm.trans owned.here, same⟩
    · exact .inl (.inr (heap ▸ inHeap))
  · have inHeap : storage.heap.get? address = some (.slot slot) := by
      have found := slot_ok_iff.mp read
      simpa [objectAt?, absent] using found
    rw [replaced]
    rintro other present (onStack | found)
    · exact .inl (.inl onStack)
    · rw [Heap.get?_set _ _ inHeap] at found
      split at found
      next same => exact .inr ⟨same, (Option.some.inj found).symm⟩
      next => exact .inl (.inr found)

theorem puts_heapSet {old : HeapObject} (found : storage.heap.get? address = some old)
    (object : HeapObject) :
    storage.Puts { storage with heap := storage.heap.set address object } address object := by
  rintro other present (onStack | inHeap)
  · exact .inl (.inl onStack)
  · rw [Heap.get?_set _ _ found] at inHeap
    split at inHeap
    next same => exact .inr ⟨same, (Option.some.inj inHeap).symm⟩
    next => exact .inl (.inr inHeap)

theorem puts_heapPush (storage : Storage) (object : HeapObject) :
    storage.Puts { storage with heap := storage.heap.push object } storage.heap.nextAddress
      object := by
  rintro other present (onStack | inHeap)
  · exact .inl (.inl onStack)
  · rw [Heap.get?_push] at inHeap
    split at inHeap
    next same => exact .inr ⟨same, (Option.some.inj inHeap).symm⟩
    next => exact .inl (.inr inHeap)

theorem puts_allocate (storage : Storage) (name : String) (kind : Kind) (site : Option SiteId)
    (placement : Placement) (value : Value) :
    storage.Puts (storage.allocate name kind site placement value).2
      (storage.allocate name kind site placement value).1.address
      (.slot ⟨name, kind, value, site,
        (storage.allocate name kind site placement value).1.address⟩) := by
  cases placement with
  | heap => exact puts_heapPush storage _
  | stack =>
      rintro other present (⟨held, member, here, same⟩ | inHeap)
      · have slots := stackSlots_pushCurrent storage
          ⟨name, kind, value, site, storage.nextStackAddress⟩
        rcases List.mem_append.mp (slots ▸ member : held ∈ _ ++ _) with before | new
        · exact .inl (.inl ⟨held, before, here, same⟩)
        · obtain rfl := List.mem_singleton.mp new
          exact .inr ⟨here.symm, same⟩
      · have heap := heap_modifyCurrent storage
          (·.push ⟨name, kind, value, site, storage.nextStackAddress⟩)
        exact .inl (.inr (heap ▸ inHeap))

theorem within_bind (storage : Storage) (name : String) (address : Address) :
    storage.Within (storage.modifyCurrent (·.bind name address)) := by
  have slots : (storage.modifyCurrent (·.bind name address)).stackSlots = storage.stackSlots := by
    rw [stackSlots, stackSlots, frames_modifyCurrent]
    conv => rhs; rw [frames_eq storage]
    simp [Frame.bind]
  intro other present has
  rw [Has, slots, heap_modifyCurrent] at has
  exact has

theorem puts_declare (storage : Storage) (name : String) (kind : Kind) (site : Option SiteId)
    (placement : Placement) (value : Value) :
    storage.Puts (storage.declare name kind site placement value).2
      (storage.declare name kind site placement value).1.address
      (.slot ⟨name, kind, value, site,
        (storage.declare name kind site placement value).1.address⟩) :=
  (storage.puts_allocate name kind site placement value).within (within_bind _ _ _)

theorem within_pushFrame (storage : Storage) (function : String) (callSite : Option Location) :
    storage.Within (storage.pushFrame function callSite) := by
  intro other present has
  rw [Has, stackSlots_pushFrame] at has
  exact has

theorem within_popFrame (storage : Storage) : storage.Within storage.popFrame := by
  by_cases called : storage.InCall
  · rintro other present (⟨held, member, here, same⟩ | inHeap)
    · refine .inl ⟨held, ?_, here, same⟩
      rw [stackSlots_popFrame called]
      exact List.mem_append_left _ member
    · exact .inr ((heap_popFrame storage).1 ▸ inHeap)
  · rw [popFrame_of_not_inCall called]
    exact fun _ _ => id

theorem within_sweep (storage : Storage) : storage.Within storage.sweep.2 := by
  rintro other present (onStack | inHeap)
  · exact .inl onStack
  · refine .inr ?_
    rwa [sweep, Heap.get?_markUnreachable] at inHeap

theorem moves_pushFrame (storage : Storage) (function : String) (callSite : Option Location) :
    storage.Moves (storage.pushFrame function callSite) false none :=
  @moves_perform storage (.pushFrame function callSite) nofun

theorem moves_sweep (storage : Storage) : storage.Moves storage.sweep.2 false none :=
  @moves_perform storage .sweep nofun

theorem moves_declare (storage : Storage) (name : String) (kind : Kind) (site : Option SiteId)
    (placement : Placement) (value : Value) :
    storage.Moves (storage.declare name kind site placement value).2 (placement == .stack)
      (some (storage.declare name kind site placement value).1.address) :=
  @moves_perform storage (.declare name kind site placement value) nofun

theorem Moves.fits (moves : storage.Moves changed onStack given) (fits : changed.Fits) :
    storage.Fits := by
  have grown : storage.nextStackAddress ≤ changed.nextStackAddress :=
    moves.stackEnd ▸ Nat.le_add_right _ _
  exact Nat.le_trans grown fits

/-! ### The kinds of slots -/

theorem Taken.moves (taken : storage.Taken address)
    (moves : storage.Moves changed onStack given) : changed.Taken address := by
  have stackEnd : storage.nextStackAddress ≤ changed.nextStackAddress :=
    moves.stackEnd ▸ Nat.le_add_right _ _
  rcases taken with onStack | ⟨start, bound⟩
  · exact .inl (Nat.lt_of_lt_of_le onStack stackEnd)
  · exact .inr ⟨start, Nat.lt_of_lt_of_le bound moves.heapEnd_le⟩

/-- While there is room, an address is handed out once. -/
theorem Taken.not_given (taken : storage.Taken address)
    (moves : storage.Moves changed onStack (some address)) (fits : changed.Fits) : False := by
  have heapBegins : heapStart ≤ storage.heap.nextAddress := Nat.le_add_right _ _
  rcases moves.given with ⟨placed, passed⟩ | ⟨placed, -⟩
  · rcases taken with bound | ⟨start, -⟩
    · exact absurd (placed ▸ bound) (Nat.lt_irrefl _)
    · exact absurd (Nat.lt_of_lt_of_le passed fits) (Nat.not_lt.mpr start)
  · rcases taken with bound | ⟨-, bound⟩
    · have below := Nat.lt_of_lt_of_le bound (moves.fits fits)
      exact absurd (placed ▸ below) (Nat.not_lt.mpr heapBegins)
    · exact absurd (placed ▸ bound) (Nat.lt_irrefl _)

theorem taken_given (moves : storage.Moves changed onStack (some address)) :
    changed.Taken address := by
  cases moves with
  | stack stackEnd _ _ => exact .inl (stackEnd ▸ Nat.lt_add_of_pos_right (by decide))
  | heap _ heapEnd _ =>
      exact .inr ⟨Nat.le_add_right _ _, heapEnd ▸ Nat.lt_add_of_pos_right (by decide)⟩

theorem KindAt.puts {target : Address} (known : storage.KindAt address kind)
    (moves : storage.Moves changed onStack given) (puts : storage.Puts changed target object)
    (same : ∀ slot, object = .slot slot →
      (∃ old, storage.Has target (.slot old) ∧ old.kind = slot.kind) ∨ given = some target) :
    changed.KindAt address kind := by
  intro fits
  obtain ⟨taken, kinds⟩ := known (moves.fits fits)
  refine ⟨taken.moves moves, fun slot has => ?_⟩
  rcases puts _ _ has with before | ⟨rfl, rfl⟩
  · exact kinds slot before
  · rcases same slot rfl with ⟨old, before, kept⟩ | rfl
    · exact kept ▸ kinds old before
    · exact (taken.not_given moves fits).elim

theorem KindAt.declare (known : storage.KindAt address kind) (name : String) (other : Kind)
    (site : Option SiteId) (placement : Placement) (value : Value) :
    (storage.declare name other site placement value).2.KindAt address kind :=
  known.puts (moves_declare storage name other site placement value)
    (puts_declare storage name other site placement value) fun _ _ => .inr rfl

theorem KindAt.within (known : storage.KindAt address kind)
    (moves : storage.Moves changed onStack given) (within : storage.Within changed) :
    changed.KindAt address kind := by
  intro fits
  obtain ⟨taken, kinds⟩ := known (moves.fits fits)
  exact ⟨taken.moves moves, fun slot has => kinds slot (within _ _ has)⟩

theorem KindAt.puts_other {target : Address} (known : storage.KindAt address kind)
    (moves : storage.Moves changed onStack given) (puts : storage.Puts changed target object)
    (other : ∀ slot, object ≠ .slot slot) : changed.KindAt address kind :=
  known.puts moves puts fun slot same => absurd same (other slot)

theorem KindAt.step (known : storage.KindAt address kind) (step : storage.Step changed) :
    changed.KindAt address kind := by
  cases step with
  | setSlot target slot value read =>
      refine known.puts (.setSlot read rfl) (puts_setSlot read value) ?_
      rintro _ ⟨⟩
      exact .inl ⟨slot, has_of_slot read, rfl⟩
  | setBlock target block cells read size =>
      exact known.puts_other (.heapSet storage target _)
        (puts_heapSet (block_eq_ok_iff.mp read) _) nofun
  | setTable target table new read =>
      exact known.puts_other (.heapSet storage target _)
        (puts_heapSet (table_eq_ok_iff.mp read) _) nofun
  | addBlock block => exact known.puts_other (.heapPush storage _) (puts_heapPush storage _) nofun
  | addTable table => exact known.puts_other (.heapPush storage _) (puts_heapPush storage _) nofun
  | allocate name kind site placement value =>
      exact known.puts (.allocate storage name kind site placement value)
        (puts_allocate storage name kind site placement value) fun _ _ => .inr rfl
  | declare name kind site placement value => exact known.declare name kind site placement value
  | pushFrame function callSite =>
      exact known.within (moves_pushFrame storage _ _) (within_pushFrame storage _ _)
  | popFrame => exact known.within (.popFrame storage) (within_popFrame storage)
  | sweep => exact known.within (moves_sweep storage) (within_sweep storage)

/-- One object lives at an address while there is room. -/
theorem Has.unique {other : HeapObject} (has : storage.Has address object)
    (hasOther : storage.Has address other) (orderly : storage.Orderly) (fits : storage.Fits) :
    object = other := by
  have apart : ∀ {slot : Slot} {object : HeapObject}, slot ∈ storage.stackSlots →
      storage.heap.get? slot.address ≠ some object := by
    intro slot object member found
    have below := orderly.below _ (List.mem_map_of_mem member)
    have start := (Heap.lt_nextAddress_of_get? found).1
    exact absurd (Nat.lt_of_lt_of_le below fits) (Nat.not_lt.mpr start)
  rcases has with ⟨slot, member, rfl, rfl⟩ | inHeap
  · rcases hasOther with ⟨slot', member', same, rfl⟩ | inHeap
    · exact congrArg HeapObject.slot
        (List.inj_on_of_nodup_map orderly.distinct member member' same.symm)
    · exact (apart member inHeap).elim
  · rcases hasOther with ⟨slot', member', rfl, rfl⟩ | inHeap'
    · exact (apart member' inHeap).elim
    · exact Option.some.inj (inHeap.symm.trans inHeap')

theorem Has.taken (has : storage.Has address object) (orderly : storage.Orderly) :
    storage.Taken address := by
  rcases has with ⟨slot, member, rfl, -⟩ | inHeap
  · exact .inl (orderly.below _ (List.mem_map_of_mem member))
  · exact .inr (Heap.lt_nextAddress_of_get? inHeap)

/-! ### Regular storage -/

namespace Regular

theorem empty : empty.Regular := by
  have nothing : ∀ {address object}, ¬ Storage.empty.Has address object := by
    rintro address object (⟨slot, member, -⟩ | inHeap)
    · cases member
    · have bounds := Heap.lt_nextAddress_of_get? inHeap
      exact Nat.lt_irrefl _ (Nat.lt_of_le_of_lt bounds.1 bounds.2)
  exact ⟨.empty, fun has => (nothing has).elim, fun _ _ _ has => (nothing has).elim⟩

theorem puts (regular : storage.Regular) (moves : storage.Moves changed onStack given)
    (puts : storage.Puts changed address object)
    (canonical : ∀ value ∈ object.contents, value.Canonical)
    (kinds : storage.Fits → ∀ slot, object = .slot slot → slot.value.kind = slot.kind) :
    changed.Regular := by
  refine ⟨regular.orderly.moves moves, fun has => ?_, fun fits _ slot has => ?_⟩
  · rcases puts _ _ has with before | ⟨-, rfl⟩
    · exact regular.canonical before
    · exact canonical
  · rcases puts _ _ has with before | ⟨-, same⟩
    · exact regular.kinds (moves.fits fits) before
    · exact kinds (moves.fits fits) slot same.symm

theorem within (regular : storage.Regular) (moves : storage.Moves changed onStack given)
    (within : storage.Within changed) : changed.Regular :=
  ⟨regular.orderly.moves moves, fun has => regular.canonical (within _ _ has),
    fun fits _ _ has => regular.kinds (moves.fits fits) (within _ _ has)⟩

theorem kindAt (regular : storage.Regular) (has : storage.Has address (.slot slot)) :
    storage.KindAt address slot.kind := by
  refine fun fits => ⟨has.taken regular.orderly, fun other hasOther => ?_⟩
  have same := hasOther.unique has regular.orderly fits
  rw [HeapObject.slot.inj same]

/-- What is loaded is canonical, and the whole of a slot has its kind. -/
theorem load (regular : storage.Regular) (loaded : storage.load ref = .ok value) :
    value.Canonical ∧ (ref.path = [] → storage.KindAt ref.address value.kind) := by
  obtain ⟨slot, read, inside⟩ := load_eq_ok.mp loaded
  have has := has_of_slot read
  refine ⟨(regular.canonical has _ (List.mem_singleton.mpr rfl)).atPath? inside, ?_⟩
  intro whole fits
  rw [whole] at inside
  rw [← Option.some.inj inside, regular.kinds fits has]
  exact regular.kindAt has fits

/-- What is stored is canonical, and the whole of a slot is replaced by a value of its kind. -/
theorem store (regular : storage.Regular) (canonical : value.Canonical)
    (fitting : ref.path = [] → storage.KindAt ref.address value.kind)
    (stored : storage.store ref value = .ok changed) : changed.Regular := by
  obtain ⟨slot, whole, read, done, rfl⟩ := store_eq_ok.mp stored
  have has := has_of_slot read
  refine regular.puts (.setSlot read rfl) (puts_setSlot read whole) ?_ ?_
  · intro held member
    obtain rfl := List.mem_singleton.mp member
    exact (regular.canonical has _ (List.mem_singleton.mpr rfl)).setAtPath? canonical done
  · rintro fits _ ⟨⟩
    have own := regular.kinds fits has
    refine (Value.kind_setAtPath? done fun wholly => ?_).trans own
    exact ((fitting wholly fits).2 slot has).symm.trans own.symm

/-! ### Blocks and tables -/

theorem element (regular : storage.Regular) {index : Int}
    (found : storage.element header index = .ok value) : value.Canonical := by
  obtain ⟨address, cell, block, -, read, present⟩ := element_eq_ok.mp found
  exact regular.canonical (has_of_block read) value
    (List.mem_cons_of_mem _ (List.mem_of_getElem? present))

theorem tableGet (regular : storage.Regular)
    (found : storage.tableGet header key = .ok (some value)) : value.Canonical := by
  obtain ⟨address, table, -, read, present⟩ := tableGet_eq_some.mp found
  obtain ⟨entry, inTable, rfl⟩ := Option.map_eq_some_iff.mp present
  refine regular.canonical (has_of_table read) _ (List.mem_flatMap.mpr ⟨entry, ?_, by simp⟩)
  exact List.mem_of_find?_eq_some inTable

theorem setElement (regular : storage.Regular) {index : Int} (canonical : value.Canonical)
    (done : storage.setElement header index value = .ok changed) : changed.Regular := by
  obtain ⟨address, cell, block, -, read, -, rfl⟩ := setElement_eq_ok.mp done
  have old := regular.canonical (has_of_block read)
  refine regular.puts (.heapSet storage address _) (puts_heapSet (block_eq_ok_iff.mp read) _) ?_
    nofun
  intro held member
  rcases List.mem_cons.mp member with rfl | inCells
  · exact old _ (List.mem_cons_self ..)
  · rcases List.mem_or_eq_of_mem_set inCells with before | rfl
    · exact old held (List.mem_cons_of_mem _ before)
    · exact canonical

theorem tableInsert (regular : storage.Regular) (keyCanonical : key.Canonical)
    (canonical : value.Canonical) (done : storage.tableInsert header key value = .ok changed) :
    changed.Regular := by
  obtain ⟨address, table, -, read, rfl⟩ := tableInsert_eq_ok.mp done
  refine regular.puts (.heapSet storage address _) (puts_heapSet (table_eq_ok_iff.mp read) _) ?_
    nofun
  intro held member
  rcases mem_contents_insert member with old | rfl | rfl
  · exact regular.canonical (has_of_table read) held old
  · exact keyCanonical
  · exact canonical

theorem allocBlock (regular : storage.Regular) {cells : List Value} {zero : Value} (len : Nat)
    (canonical : ∀ cell ∈ cells, cell.Canonical) (zeroCanonical : zero.Canonical) :
    (storage.allocBlock cells len zero).2.Regular := by
  refine regular.puts (.heapPush storage _) (puts_heapPush storage _) ?_ nofun
  exact List.forall_mem_cons.mpr ⟨zeroCanonical, canonical⟩

theorem allocTable (regular : storage.Regular) {entries : List (Value × Value)}
    (canonical : ∀ entry ∈ entries, entry.1.Canonical ∧ entry.2.Canonical) :
    (storage.allocTable entries).2.Regular := by
  refine regular.puts (.heapPush storage _) (puts_heapPush storage _) ?_ nofun
  intro held member
  obtain ⟨entry, inEntries, rfl | rfl⟩ := mem_contents_ofList member
  · exact (canonical entry inEntries).1
  · exact (canonical entry inEntries).2

/-- An append gives a header, also in another block, and puts in what is canonical. -/
theorem append (regular : storage.Regular) {values : List Value} {grown : Value}
    (canonical : ∀ value ∈ values, value.Canonical)
    (appended : storage.append header values = .ok (grown, changed)) :
    changed.Regular ∧ grown.Canonical ∧ grown.kind = header.kind := by
  cases append_eq_ok appended with
  | nothing len cap offset block =>
      exact ⟨regular, Value.canonical_referenceHeader _ _ _ _, rfl⟩
  | inPlace len cap offset address block values read room =>
      refine ⟨?_, Value.canonical_referenceHeader _ _ _ _, rfl⟩
      have old := regular.canonical (has_of_block read)
      refine regular.puts (.heapSet storage address _) (puts_heapSet (block_eq_ok_iff.mp read) _) ?_
        nofun
      intro held member
      rcases List.mem_cons.mp member with rfl | inCells
      · exact old _ (List.mem_cons_self ..)
      · rcases mem_overwrite inCells with before | new
        · exact old held (List.mem_cons_of_mem _ before)
        · exact canonical held new
  | grown len cap offset address block values cells read full filled =>
      refine ⟨?_, Value.canonical_referenceHeader _ _ _ _, rfl⟩
      have old := regular.canonical (has_of_block read)
      refine regular.allocBlock _ (fun held member => ?_) (old _ (List.mem_cons_self ..))
      rcases mem_padCells (filled ▸ member) with within | rfl
      · rcases List.mem_append.mp within with visible | new
        · apply old held
          exact List.mem_cons_of_mem _ (List.mem_of_mem_drop (List.mem_of_mem_take visible))
        · exact canonical held new
      · exact old _ (List.mem_cons_self ..)
  | first len cap offset value values cells filled =>
      refine ⟨?_, Value.canonical_referenceHeader _ _ _ _, rfl⟩
      have zero := Value.canonical_zeroLike value
      refine regular.allocBlock _ (fun held member => ?_) zero
      rcases mem_padCells (filled ▸ member) with new | rfl
      · exact canonical held new
      · exact zero

/-! ### Slots and frames -/

theorem allocate (regular : storage.Regular) (name : String) (site : Option SiteId)
    (placement : Placement) (canonical : value.Canonical) (fitting : value.kind = kind) :
    (storage.allocate name kind site placement value).2.Regular := by
  refine regular.puts (.allocate storage name kind site placement value)
    (puts_allocate storage name kind site placement value) ?_ ?_
  · exact List.forall_mem_singleton.mpr canonical
  · rintro _ _ ⟨⟩
    exact fitting

theorem declare (regular : storage.Regular) (name : String) (site : Option SiteId)
    (placement : Placement) (canonical : value.Canonical) (fitting : value.kind = kind) :
    (storage.declare name kind site placement value).2.Regular := by
  refine regular.puts (moves_declare storage name kind site placement value)
    (puts_declare storage name kind site placement value) ?_ ?_
  · exact List.forall_mem_singleton.mpr canonical
  · rintro _ _ ⟨⟩
    exact fitting

theorem kindAt_declare (regular : storage.Regular) (name : String) (site : Option SiteId)
    (placement : Placement) (value : Value) :
    (storage.declare name kind site placement value).2.KindAt
      (storage.declare name kind site placement value).1.address kind := by
  have moves := moves_declare storage name kind site placement value
  refine fun fits => ⟨taken_given moves, fun slot has => ?_⟩
  rcases puts_declare storage name kind site placement value _ _ has with before | ⟨-, same⟩
  · exact ((before.taken regular.orderly).not_given moves fits).elim
  · cases same
    rfl

theorem pushFrame (regular : storage.Regular) (function : String) (callSite : Option Location) :
    (storage.pushFrame function callSite).Regular :=
  regular.within (moves_pushFrame storage _ _) (within_pushFrame storage _ _)

theorem popFrame (regular : storage.Regular) : storage.popFrame.Regular :=
  regular.within (.popFrame storage) (within_popFrame storage)

theorem sweep (regular : storage.Regular) : storage.sweep.2.Regular :=
  regular.within (moves_sweep storage) (within_sweep storage)

end Regular

end Storage

end ReferenceSemantics

import Mathlib.Data.List.Permutation
import ReferenceSemantics.Proofs.Graph.Reach
import ReferenceSemantics.Proofs.Storage.Contents
import ReferenceSemantics.Proofs.Storage.Regions
import ReferenceSemantics.Proofs.Value.Gathering

set_option autoImplicit false

/-!
What is garbage stays garbage, when the values that fill spare cells count as held.

A later operation can only surface an address that its operands mention or that an object already
holds. A block holds its fill value too: it is copied into the spare cells of every block that grows
from this one. A sweep passes over fill values, so an object that only they lead to is marked and
may still come back.
-/

namespace ReferenceSemantics

/-- The addresses that an object may surface, those in its fill value included. -/
def HeapObject.surfaces (object : HeapObject) : List Address :=
  object.contents.flatMap Value.references

def Heap.surfacesAt (heap : Heap) (address : Address) : List Address :=
  ((heap.get? address).map HeapObject.surfaces).getD []

namespace Storage

/-- The heap addresses that live frames lead to when fill values count. -/
def retainedHeap (storage : Storage) : List Address :=
  reach storage.heap.surfacesAt storage.heap.addresses storage.roots

/-- The addresses in the operands of an operation. -/
def Operation.mentions : Operation → List Address
  | .pushFrame _ _ | .popFrame | .sweep | .discard => []
  | .allocate _ _ _ _ value | .declare _ _ _ _ value => value.references
  | .amend address _ _ _ value => address :: value.references
  | .store ref value => ref.address :: value.references
  | .setElement header _ value => header.references ++ value.references
  | .append header values => header.references ++ values.flatMap Value.references
  | .reslice header _ _ => header.references
  | .allocBlock cells _ zero => cells.flatMap Value.references ++ zero.references
  | .allocTable entries => entries.flatMap fun entry => entry.1.references ++ entry.2.references
  | .tableInsert header key value => header.references ++ key.references ++ value.references

/-- Every operation mentions only live stack slots, what is reachable at that moment, and addresses
handed out since the start. -/
def Careful (storage : Storage) (fresh : List Address) : List Operation → Prop
  | [] => True
  | operation :: history =>
      (∀ address ∈ operation.mentions,
        address ∈ storage.stackAddresses ∨ address ∈ storage.reachableHeap ∨ address ∈ fresh) ∧
      Careful (storage.perform operation).2 ((storage.perform operation).1.toList ++ fresh) history

instance Careful.decidable : (storage : Storage) → (fresh : List Address) →
    (history : List Operation) → Decidable (storage.Careful fresh history)
  | _, _, [] => .isTrue trivial
  | storage, fresh, operation :: history =>
      have := Careful.decidable (storage.perform operation).2
        ((storage.perform operation).1.toList ++ fresh) history
      inferInstanceAs (Decidable (_ ∧ _))

/-! ### What frames and objects hold -/

variable {storage changed : Storage} {garbage : Address → Prop}

theorem mem_roots {address : Address} :
    address ∈ storage.roots ↔ ∃ frame ∈ storage.frames,
      (∃ binding ∈ frame.bindings, binding.2 = address) ∨
        ∃ slot ∈ frame.slots, address ∈ slot.value.references := by
  simp only [roots, List.mem_flatMap, List.mem_append, List.mem_map]

theorem mem_addresses {heap : Heap} {address : Address} :
    address ∈ heap.addresses ↔ heap.contains address := by
  rw [contains_eq_isSome, Heap.addresses, List.mem_map]
  constructor
  · rintro ⟨index, inside, rfl⟩
    rw [Heap.get?_addressOf, Array.getElem?_eq_getElem (List.mem_range.mp inside)]
    rfl
  · intro present
    obtain ⟨object, found⟩ := Option.isSome_iff_exists.mp present
    obtain ⟨index, rfl, bound, -⟩ := Heap.exists_index_of_get? found
    exact ⟨index, List.mem_range.mpr bound, rfl⟩

theorem mem_surfacesAt {heap : Heap} {address held : Address} :
    held ∈ heap.surfacesAt address ↔
      ∃ object, heap.get? address = some object ∧ held ∈ object.surfaces := by
  rw [Heap.surfacesAt]
  cases heap.get? address <;> simp

theorem mem_surfaces_of_references {object : HeapObject} {address : Address}
    (member : address ∈ object.references) : address ∈ object.surfaces := by
  obtain ⟨value, inValues, held⟩ := List.mem_flatMap.mp member
  refine List.mem_flatMap.mpr ⟨value, ?_, held⟩
  cases object with
  | slot _ => exact inValues
  | block _ => exact List.mem_cons_of_mem _ inValues
  | table _ => exact inValues

/-! ### Storage that does not hold garbage -/

/-- Neither frames nor objects that are no garbage hold garbage. -/
structure Clear (garbage : Address → Prop) (storage : Storage) : Prop where
  roots : ∀ held ∈ storage.roots, ¬ garbage held
  objects : ∀ {address object}, ¬ garbage address → storage.heap.get? address = some object →
    ∀ held ∈ object.surfaces, ¬ garbage held

namespace Clear

/-- Nothing reachable is garbage. -/
theorem not_reachable (clear : storage.Clear garbage) {address : Address}
    (reachable : address ∈ storage.reachableHeap) : ¬ garbage address := by
  have found := (List.mem_filter.mp reachable).2
  rw [List.contains_iff_mem] at found
  refine forall_mem_reach (¬ garbage ·) (fun held inRoots _ => clear.roots held inRoots) ?_ found
  intro node known successor edge _
  rw [Heap.referencesAt] at edge
  cases present : storage.heap.get? node with
  | none => simp [present] at edge
  | some object =>
      simp only [present, Option.map_some, Option.getD_some] at edge
      exact clear.objects known present successor (mem_surfaces_of_references edge)

/-- What is not retained is held by nothing that is retained. -/
theorem unretained (storage : Storage) :
    storage.Clear fun address =>
      storage.heap.contains address ∧ address ∉ storage.retainedHeap := by
  refine ⟨?_, ?_⟩
  · rintro held inRoots ⟨present, lost⟩
    exact lost (mem_reach_of_mem_pending (mem_addresses.mpr present) inRoots)
  · rintro address object known found held inObject ⟨present, lost⟩
    have inHeap : storage.heap.contains address := by rw [contains_eq_isSome, found]; rfl
    have retained : address ∈ storage.retainedHeap :=
      Classical.byContradiction fun missing => known ⟨inHeap, missing⟩
    exact lost (mem_reach_of_mem_next retained (mem_surfacesAt.mpr ⟨object, found, inObject⟩)
      (mem_addresses.mpr present))

theorem of_roots (clear : storage.Clear garbage)
    (heap : ∀ address, changed.heap.get? address = storage.heap.get? address)
    (roots : ∀ held ∈ changed.roots, held ∈ storage.roots ∨ ¬ garbage held) :
    changed.Clear garbage :=
  ⟨fun held inRoots => (roots held inRoots).elim (clear.roots held) id,
    fun known found => clear.objects known (heap _ ▸ found)⟩

theorem heapSet (clear : storage.Clear garbage) {address : Address} {old : HeapObject}
    (found : storage.heap.get? address = some old) (object : HeapObject)
    (holds : ¬ garbage address → ∀ held ∈ object.surfaces, ¬ garbage held) :
    Clear garbage { storage with heap := storage.heap.set address object } := by
  refine ⟨clear.roots, fun {other} present known reads => ?_⟩
  rw [Heap.get?_set _ _ found] at reads
  split at reads
  next same =>
    cases reads
    exact holds (same ▸ known)
  next => exact clear.objects known reads

theorem heapPush (clear : storage.Clear garbage) (object : HeapObject)
    (holds : ∀ held ∈ object.surfaces, ¬ garbage held) :
    Clear garbage { storage with heap := storage.heap.push object } := by
  refine ⟨clear.roots, fun known reads => ?_⟩
  rw [Heap.get?_push] at reads
  split at reads
  · cases reads
    exact holds
  · exact clear.objects known reads

theorem mem_current (storage : Storage) {address : Address}
    (held : (∃ binding ∈ storage.current.bindings, binding.2 = address) ∨
      ∃ slot ∈ storage.current.slots, address ∈ slot.value.references) :
    address ∈ storage.roots :=
  mem_roots.mpr ⟨storage.current, storage.current_mem_frames, held⟩

/-- A change of the current frame is clear when all that it adds is. -/
theorem modifyCurrent (clear : storage.Clear garbage) (f : Frame → Frame)
    (bindings : ∀ binding ∈ (f storage.current).bindings,
      binding ∈ storage.current.bindings ∨ ¬ garbage binding.2)
    (slots : ∀ slot ∈ (f storage.current).slots,
      slot ∈ storage.current.slots ∨ ∀ held ∈ slot.value.references, ¬ garbage held) :
    (storage.modifyCurrent f).Clear garbage := by
  refine clear.of_roots (fun address => by rw [heap_modifyCurrent]) fun held inRoots => ?_
  obtain ⟨frame, member, holds⟩ := mem_roots.mp inRoots
  rw [frames_modifyCurrent] at member
  rcases List.mem_append.mp member with below | top
  · exact .inl (mem_roots.mpr ⟨frame, List.dropLast_subset _ below, holds⟩)
  · rw [List.mem_singleton.mp top] at holds
    rcases holds with ⟨binding, inFrame, rfl⟩ | ⟨slot, inFrame, inSlot⟩
    · exact (bindings binding inFrame).imp_left fun old =>
        mem_current storage (.inl ⟨binding, old, rfl⟩)
    · exact (slots slot inFrame).imp (fun old => mem_current storage (.inr ⟨slot, old, inSlot⟩))
        fun new => new held inSlot

/-- A slot that is no garbage holds none. -/
theorem slot (clear : storage.Clear garbage) {address : Address} {slot : Slot}
    (read : storage.slot address = .ok slot) (known : ¬ garbage address) :
    ∀ held ∈ slot.value.references, ¬ garbage held := by
  intro held inSlot
  have found := slot_ok_iff.mp read
  rw [objectAt?] at found
  cases owned : storage.stackSlot? address with
  | some owner =>
      obtain rfl : owner = slot := by simpa [owned] using found
      obtain ⟨frame, inFrames, inFrame⟩ := List.mem_flatMap.mp (stackSlot?_some owned).1
      exact clear.roots held (mem_roots.mpr ⟨frame, inFrames, .inr ⟨owner, inFrame, inSlot⟩⟩)
  | none =>
      have inHeap : storage.heap.get? address = some (.slot slot) := by simpa [owned] using found
      apply clear.objects known inHeap
      exact List.mem_flatMap.mpr ⟨slot.value, List.mem_singleton_self _, inSlot⟩

theorem setSlot (clear : storage.Clear garbage) {address : Address} {old new : Slot}
    (read : storage.slot address = .ok old)
    (holds : ∀ held ∈ new.value.references, ¬ garbage held) :
    (storage.setSlot address new).Clear garbage := by
  rcases storage.owned_or_absent address with ⟨slot, ⟨owned⟩⟩ | ⟨absent, readHeap, replaced⟩
  · obtain ⟨frames, heap, -⟩ := owned.replaced new
    refine clear.of_roots (fun address => by rw [heap]) fun held inRoots => ?_
    simp only [mem_roots, frames, owned.frames, List.mem_append, List.mem_cons] at inRoots ⊢
    obtain ⟨frame, below | rfl | above, inFrame⟩ := inRoots
    · exact .inl ⟨frame, .inl below, inFrame⟩
    · rcases inFrame with bound | ⟨slot, member, inSlot⟩
      · exact .inl ⟨_, .inr (.inl rfl), .inl bound⟩
      · rcases List.mem_append.mp member with first | other
        · exact .inl ⟨_, .inr (.inl rfl), .inr ⟨slot, List.mem_append_left _ first, inSlot⟩⟩
        · rcases List.mem_cons.mp other with rfl | rest
          · exact .inr (holds held inSlot)
          · refine .inl ⟨_, .inr (.inl rfl), .inr ⟨slot, ?_, inSlot⟩⟩
            exact List.mem_append_right _ (List.mem_cons_of_mem _ rest)
    · exact .inl ⟨frame, .inr (.inr above), inFrame⟩
  · have found := slot_ok_iff.mp read
    have inHeap : storage.heap.get? address = some (.slot old) := by
      simpa [objectAt?, absent] using found
    rw [replaced]
    refine clear.heapSet inHeap _ fun _ held member => holds held ?_
    simpa [HeapObject.surfaces, HeapObject.contents] using member

theorem allocate (clear : storage.Clear garbage) (name : String) (kind : Kind)
    (site : Option SiteId) (placement : Placement) {value : Value}
    (holds : ∀ held ∈ value.references, ¬ garbage held) :
    (storage.allocate name kind site placement value).2.Clear garbage := by
  cases placement with
  | stack =>
      refine (clear.modifyCurrent (·.push _) (fun _ old => .inl old) fun slot member => ?_).of_roots
        (fun _ => rfl) fun _ inRoots => .inl inRoots
      rcases List.mem_append.mp member with old | new
      · exact .inl old
      · exact .inr (List.mem_singleton.mp new ▸ holds)
  | heap =>
      refine clear.heapPush _ fun held member => holds held ?_
      simpa [HeapObject.surfaces, HeapObject.contents] using member

theorem getD (clear : storage.Clear garbage) {result : Except StorageError Storage}
    (done : ∀ changed, result = .ok changed → changed.Clear garbage) :
    (result.toOption.getD storage).Clear garbage := by
  cases result with
  | error reason => exact clear
  | ok changed => exact done changed rfl

theorem popFrame (clear : storage.Clear garbage) : storage.popFrame.Clear garbage := by
  refine clear.of_roots (fun address => by rw [(heap_popFrame storage).1]) fun held inRoots => ?_
  by_cases called : storage.InCall
  · obtain ⟨frame, member, holds⟩ := mem_roots.mp inRoots
    rw [frames_popFrame called] at member
    exact .inl (mem_roots.mpr ⟨frame, List.dropLast_subset _ member, holds⟩)
  · exact .inl (popFrame_of_not_inCall called ▸ inRoots)

theorem pushFrame (clear : storage.Clear garbage) (function : String)
    (callSite : Option Location) : (storage.pushFrame function callSite).Clear garbage := by
  refine clear.of_roots (fun _ => rfl) fun held inRoots => .inl ?_
  obtain ⟨frame, member, holds⟩ := mem_roots.mp inRoots
  rw [frames_pushFrame] at member
  rcases List.mem_append.mp member with old | new
  · exact mem_roots.mpr ⟨frame, old, holds⟩
  · rw [List.mem_singleton.mp new] at holds
    simp [Frame.new] at holds

/-- An object at an address that is no garbage can be read, cell by cell and entry by entry. -/
theorem contents (clear : storage.Clear garbage) {address : Address} {object : HeapObject}
    (found : storage.heap.get? address = some object) (known : ¬ garbage address) {value : Value}
    (member : value ∈ object.contents) : ∀ held ∈ value.references, ¬ garbage held :=
  fun held inValue =>
    clear.objects known found held (List.mem_flatMap.mpr ⟨value, member, inValue⟩)

theorem setElement (clear : storage.Clear garbage) {header value : Value} {index : Int}
    (written : storage.setElement header index value = .ok changed)
    (holds : ∀ held ∈ value.references, ¬ garbage held) : changed.Clear garbage := by
  obtain ⟨address, cell, block, -, read, -, rfl⟩ := setElement_eq_ok.mp written
  have found := block_eq_ok_iff.mp read
  refine clear.heapSet found _ fun known held surfaced => ?_
  obtain ⟨content, member, inContent⟩ := List.mem_flatMap.mp surfaced
  rcases List.mem_cons.mp member with rfl | inCells
  · exact clear.contents found known (List.mem_cons_self ..) held inContent
  · rcases List.mem_or_eq_of_mem_set inCells with old | rfl
    · exact clear.contents found known (List.mem_cons_of_mem _ old) held inContent
    · exact holds held inContent

theorem allocBlock (clear : storage.Clear garbage) {cells : List Value} {zero : Value} (len : Nat)
    (holds : ∀ cell ∈ cells, ∀ held ∈ cell.references, ¬ garbage held)
    (holdsZero : ∀ held ∈ zero.references, ¬ garbage held) :
    (storage.allocBlock cells len zero).2.Clear garbage := by
  refine clear.heapPush _ fun held surfaced => ?_
  obtain ⟨content, member, inContent⟩ := List.mem_flatMap.mp surfaced
  rcases List.mem_cons.mp member with rfl | inCells
  · exact holdsZero held inContent
  · exact holds content inCells held inContent

/-- The block that grows from another has its visible cells and its fill value. -/
theorem append (clear : storage.Clear garbage) {header moved : Value} {values : List Value}
    (appended : storage.append header values = .ok (moved, changed))
    (knownHeader : ∀ held ∈ header.references, ¬ garbage held)
    (holds : ∀ value ∈ values, ∀ held ∈ value.references, ¬ garbage held) :
    changed.Clear garbage := by
  cases append_eq_ok appended with
  | nothing len cap offset block => exact clear
  | inPlace len cap offset address block values read room =>
      have found := block_eq_ok_iff.mp read
      refine clear.heapSet found _ fun known held surfaced => ?_
      obtain ⟨content, member, inContent⟩ := List.mem_flatMap.mp surfaced
      rcases List.mem_cons.mp member with rfl | inCells
      · exact clear.contents found known (List.mem_cons_self ..) held inContent
      · rcases mem_overwrite inCells with old | new
        · exact clear.contents found known (List.mem_cons_of_mem _ old) held inContent
        · exact holds content new held inContent
  | grown len cap offset address block values cells read full filled =>
      have found := block_eq_ok_iff.mp read
      have known := knownHeader address (by simp [Value.references])
      have zero := clear.contents found known (List.mem_cons_self ..)
      refine clear.allocBlock _ (fun cell member => ?_) zero
      rw [filled] at member
      rcases mem_padCells member with inCells | rfl
      · rcases List.mem_append.mp inCells with visible | new
        · have old := List.mem_of_mem_drop (List.mem_of_mem_take visible)
          exact clear.contents found known (List.mem_cons_of_mem _ old)
        · exact holds cell new
      · exact zero
  | first len cap offset value values cells filled =>
      have zero : ∀ held ∈ value.zeroLike.references, ¬ garbage held := by
        rw [Value.references_zeroLike]
        nofun
      refine clear.allocBlock _ (fun cell member => ?_) zero
      rw [filled] at member
      rcases mem_padCells member with new | rfl
      · exact holds cell new
      · exact zero

theorem allocTable (clear : storage.Clear garbage) {entries : List (Value × Value)}
    (holds : ∀ entry ∈ entries,
      ∀ held ∈ entry.1.references ++ entry.2.references, ¬ garbage held) :
    (storage.allocTable entries).2.Clear garbage := by
  refine clear.heapPush _ fun held surfaced => ?_
  obtain ⟨content, member, inContent⟩ := List.mem_flatMap.mp surfaced
  obtain ⟨entry, inEntries, rfl | rfl⟩ := mem_contents_ofList member
  · exact holds entry inEntries held (List.mem_append_left _ inContent)
  · exact holds entry inEntries held (List.mem_append_right _ inContent)

theorem tableInsert (clear : storage.Clear garbage) {header key value : Value}
    (written : storage.tableInsert header key value = .ok changed)
    (holdsKey : ∀ held ∈ key.references, ¬ garbage held)
    (holds : ∀ held ∈ value.references, ¬ garbage held) : changed.Clear garbage := by
  obtain ⟨address, table, -, read, rfl⟩ := tableInsert_eq_ok.mp written
  have found := table_eq_ok_iff.mp read
  refine clear.heapSet found _ fun known held surfaced => ?_
  obtain ⟨content, member, inContent⟩ := List.mem_flatMap.mp surfaced
  rcases mem_contents_insert member with old | rfl | rfl
  · exact clear.contents found known old held inContent
  · exact holdsKey held inContent
  · exact holds held inContent

theorem sweep (clear : storage.Clear garbage) : storage.sweep.2.Clear garbage :=
  clear.of_roots (fun _ => Heap.get?_markUnreachable _ _ _) fun _ inRoots => .inl inRoots

/-- An operation whose operands mention no garbage brings none up. -/
theorem perform (clear : storage.Clear garbage) {operation : Operation}
    (kept : operation ≠ .discard) (mentioned : ∀ address ∈ operation.mentions, ¬ garbage address)
    (given : ∀ address ∈ (storage.perform operation).1, ¬ garbage address) :
    (storage.perform operation).2.Clear garbage := by
  cases operation with
  | pushFrame function callSite => exact clear.pushFrame function callSite
  | popFrame => exact clear.popFrame
  | allocate name kind site placement value => exact clear.allocate name kind site placement mentioned
  | declare name kind site placement value =>
      have allocated := clear.allocate name kind site placement mentioned
      refine allocated.modifyCurrent (·.bind name _) (fun binding member => ?_) fun _ old => .inl old
      rcases mem_bindIn member with rfl | old
      · exact .inr (given _ rfl)
      · exact .inl old
  | amend address name kind site value =>
      simp only [Storage.perform]
      split
      next slot read =>
        exact clear.setSlot read fun held member => mentioned held (List.mem_cons_of_mem _ member)
      next => exact clear
  | store ref value =>
      refine clear.getD fun changed stored => ?_
      obtain ⟨slot, whole, read, written, rfl⟩ := store_eq_ok.mp stored
      refine clear.setSlot read fun held member => ?_
      rcases Value.references_gathers.setAtPath? written member with old | new
      · exact clear.slot read (mentioned _ (List.mem_cons_self ..)) held old
      · exact mentioned held (List.mem_cons_of_mem _ new)
  | setElement header index value =>
      refine clear.getD fun changed written => clear.setElement written fun held member => ?_
      exact mentioned held (List.mem_append_right _ member)
  | append header values =>
      simp only [Storage.perform]
      split
      next moved changed appended =>
        refine clear.append appended
          (fun held member => mentioned held (List.mem_append_left _ member))
          fun value member held inValue => mentioned held (List.mem_append_right _ ?_)
        exact List.mem_flatMap.mpr ⟨value, member, inValue⟩
      next => exact clear
  | reslice header low high => exact clear
  | allocBlock cells len zero =>
      refine clear.allocBlock len (fun cell member held inCell => ?_)
        fun held member => mentioned held (List.mem_append_right _ member)
      exact mentioned held (List.mem_append_left _ (List.mem_flatMap.mpr ⟨cell, member, inCell⟩))
  | allocTable entries =>
      refine clear.allocTable fun entry member held inEntry => mentioned held ?_
      exact List.mem_flatMap.mpr ⟨entry, member, inEntry⟩
  | tableInsert header key value =>
      refine clear.getD fun changed written => clear.tableInsert written ?_ ?_
      · intro held member
        exact mentioned held (List.mem_append_left _ (List.mem_append_right _ member))
      · exact fun held member => mentioned held (List.mem_append_right _ member)
  | sweep => exact clear.sweep
  | discard => exact absurd rfl kept

end Clear

/-! ### Careful histories -/

/-- Garbage is of the heap, and all of it has been handed out. -/
def Past (garbage : Address → Prop) (storage : Storage) : Prop :=
  ∀ address, garbage address → heapStart ≤ address ∧ address < storage.heap.nextAddress

theorem Clear.careful {fresh : List Address} {history : List Operation}
    (clear : storage.Clear garbage) (orderly : storage.Orderly) (past : storage.Past garbage)
    (new : ∀ address ∈ fresh, ¬ garbage address) (kept : .discard ∉ history)
    (fits : (storage.after history).Fits) (careful : storage.Careful fresh history) :
    (storage.after history).Clear garbage := by
  induction history generalizing storage fresh with
  | nil => exact clear
  | cons operation history inductionHypothesis =>
      have here := Ne.symm (List.ne_of_not_mem_cons kept)
      have later := List.not_mem_of_not_mem_cons kept
      have moves := storage.moves_perform here
      have fitsHere : (storage.perform operation).2.Fits :=
        Nat.le_trans (nextStackAddress_le_after _ later) fits
      have onStack {address : Address} (below : address < heapStart) : ¬ garbage address :=
        fun dead => absurd (past address dead).1 (Nat.not_le.mpr below)
      obtain ⟨mentions, rest⟩ := careful
      have mentioned : ∀ address ∈ operation.mentions, ¬ garbage address := by
        intro address member
        rcases mentions address member with live | reachable | handedOut
        · have passed : storage.nextStackAddress ≤ (storage.perform operation).2.nextStackAddress :=
            moves.stackEnd ▸ Nat.le_add_right _ _
          have below := orderly.below address live
          exact onStack (Nat.lt_of_lt_of_le below (Nat.le_trans passed fitsHere))
        · exact clear.not_reachable reachable
        · exact new address handedOut
      have given : ∀ address ∈ (storage.perform operation).1, ¬ garbage address := by
        intro address handedOut
        rw [Option.mem_def.mp handedOut] at moves
        rcases moves.given with ⟨-, passed⟩ | ⟨placed, -⟩
        · exact onStack (Nat.lt_of_lt_of_le passed fitsHere)
        · exact fun dead => absurd (past address dead).2 (placed ▸ Nat.lt_irrefl _)
      refine inductionHypothesis (clear.perform here mentioned given) (orderly.moves moves) ?_ ?_
        later fits rest
      · exact fun address dead =>
          ⟨(past address dead).1, Nat.lt_of_lt_of_le (past address dead).2 moves.heapEnd_le⟩
      · intro address member
        rcases List.mem_append.mp member with now | old
        · exact given address (Option.mem_toList.mp now)
        · exact new address old

theorem state?_markUnreachable (heap : Heap) (reachable : List Address) (address : Address) :
    (heap.markUnreachable reachable).state? address =
      (heap.state? address).map fun state =>
        if reachable.contains address then state else .unreachable := by
  simp only [Heap.state?, Heap.entry?, Heap.markUnreachable]
  cases indexed : Heap.index? address with
  | none => rfl
  | some index =>
      obtain rfl := Heap.index?_eq_some.mp indexed
      simp only [Option.bind_some, Array.getElem?_mapIdx, Option.map_map]
      congr 1
      funext entry
      simp only [Function.comp_apply]
      split <;> rfl

/-- What neither frames nor fill values lead to is marked by a sweep, and no careful history makes
it reachable again. -/
theorem garbage_stays (before later : List Operation) (address : Address)
    (present : (empty.after before).heap.contains address)
    (lost : address ∉ (empty.after before).retainedHeap) (kept : .discard ∉ later)
    (fits : ((empty.after before).sweep.2.after later).Fits)
    (careful : (empty.after before).sweep.2.Careful [] later) :
    (empty.after before).sweep.2.heap.state? address = some .unreachable ∧
      address ∉ ((empty.after before).sweep.2.after later).reachableHeap := by
  have orderly := Orderly.empty.after before
  generalize empty.after before = storage at *
  have clear := Clear.unretained storage
  have past : storage.Past fun address =>
      storage.heap.contains address ∧ address ∉ storage.retainedHeap := by
    rintro address ⟨contained, -⟩
    rw [contains_eq_isSome] at contained
    obtain ⟨object, found⟩ := Option.isSome_iff_exists.mp contained
    exact Heap.lt_nextAddress_of_get? found
  refine ⟨?_, fun reachable => ?_⟩
  · have unreachable : ¬ address ∈ storage.reachableHeap :=
      fun reachable => clear.not_reachable reachable ⟨present, lost⟩
    obtain ⟨entry, found⟩ := Option.isSome_iff_exists.mp present
    rw [sweep, state?_markUnreachable, Heap.state?, found]
    simp [unreachable]
  · have moved := orderly.after [.sweep]
    refine (clear.sweep.careful moved ?_ (List.forall_mem_nil _) kept fits careful).not_reachable
      reachable ⟨present, lost⟩
    exact fun address dead =>
      ⟨(past address dead).1, (Heap.nextAddress_markUnreachable _ _).symm ▸ (past address dead).2⟩

/-- The block in a frame grows; the block that nothing leads to is gone for good. -/
theorem garbage_stays_growing :
    heapStart + slotSize ∉
      ((empty.after [.allocBlock [.nilPointer] 1 .nilPointer,
          .declare "s" .referenceHeader none .stack (.referenceHeader 1 1 0 (some heapStart)),
          .allocBlock [.int 1] 1 (.int 0)]).sweep.2.after
        [.append (.referenceHeader 1 1 0 (some heapStart)) [.nilPointer]]).reachableHeap :=
  (garbage_stays _ _ _ (by decide_cbv) (by decide_cbv) (by simp) (by unfold Fits; decide_cbv)
    (by decide_cbv)).2

/-- A slot `x` of the heap, to which only the fill value of a block leads. -/
def filled : List Operation :=
  [.allocate "x" .value none .heap (.int 0),
    .allocBlock [.int 1] 1 (.pointerTo ⟨heapStart, []⟩),
    .declare "s" .referenceHeader none .stack
      (.referenceHeader 1 1 0 (some (heapStart + slotSize)))]

/-- The block grows twice; the second one has spare cells. -/
def growth : List Operation :=
  [.append (.referenceHeader 1 1 0 (some (heapStart + slotSize))) [.int 2, .int 3],
    .append (.referenceHeader 3 3 0 (some (heapStart + 2 * slotSize))) [.int 4],
    .store (.ofAddress stackStart) (.referenceHeader 4 6 0 (some (heapStart + 3 * slotSize)))]

/-- The slot is marked by the sweep, and it is reachable again in the end. -/
theorem marked_surfaces_again :
    (empty.after filled).heap.state? heapStart = some .live ∧
      (empty.after filled).sweep.2.heap.state? heapStart = some .unreachable ∧
      (empty.after filled).sweep.2.Careful [] growth ∧
      heapStart ∈ ((empty.after filled).sweep.2.after growth).reachableHeap := by
  refine ⟨by decide_cbv, by decide_cbv, ?_, by decide_cbv⟩
  decide_cbv

end Storage

end ReferenceSemantics

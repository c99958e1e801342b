import ReferenceSemantics.Proofs.Storage.History

set_option autoImplicit false

/-!
The regions of the address space stay apart as long as the stack has not grown into the heap.

There is room for 33554431 stack slots. Up to there no history hands out an address twice, an
address leads to a stack slot or to a heap object but never to both, and the address of a slot that
went with its frame leads nowhere any more. The next slot takes the first address of the heap.
-/

namespace ReferenceSemantics

namespace Storage

variable {storage changed : Storage} {history : List Operation} {address : Address}

/-! ### No address is handed out twice -/

/-- An address is handed out where a counter stood, and the counter has passed it. -/
theorem Moves.given {onStack : Bool} (moves : storage.Moves changed onStack (some address)) :
    (address = storage.nextStackAddress ∧ address < changed.nextStackAddress) ∨
      (address = storage.heap.nextAddress ∧ address < changed.heap.nextAddress) := by
  have passed (counter : Address) : counter < counter + slotSize :=
    Nat.lt_add_of_pos_right (by decide)
  cases moves with
  | stack stackEnd _ _ => exact .inl ⟨rfl, stackEnd ▸ passed _⟩
  | heap _ heapEnd _ => exact .inr ⟨rfl, heapEnd ▸ passed _⟩

/-- A history hands out addresses from the counters on. -/
theorem mem_handedOut (kept : .discard ∉ history) (given : address ∈ storage.handedOut history) :
    (storage.nextStackAddress ≤ address ∧ address < (storage.after history).nextStackAddress) ∨
      storage.heap.nextAddress ≤ address := by
  induction history generalizing storage with
  | nil => cases given
  | cons operation history inductionHypothesis =>
      have moves := storage.moves_perform (Ne.symm (List.ne_of_not_mem_cons kept))
      have later := List.not_mem_of_not_mem_cons kept
      rcases List.mem_append.mp given with here | afterwards
      · rw [Option.mem_toList.mp here] at moves
        rcases moves.given with ⟨placed, passed⟩ | ⟨placed, -⟩
        · have grown := nextStackAddress_le_after (storage.perform operation).2 later
          exact .inl ⟨Nat.le_of_eq placed.symm, Nat.lt_of_lt_of_le passed grown⟩
        · exact .inr (Nat.le_of_eq placed.symm)
      · rcases inductionHypothesis later afterwards with ⟨start, bound⟩ | start
        · have grown : storage.nextStackAddress ≤ (storage.perform operation).2.nextStackAddress :=
            moves.stackEnd ▸ Nat.le_add_right _ _
          exact .inl ⟨Nat.le_trans grown start, bound⟩
        · exact .inr (Nat.le_trans moves.heapEnd_le start)

theorem nodup_handedOut (kept : .discard ∉ history) (fits : (storage.after history).Fits) :
    (storage.handedOut history).Nodup := by
  induction history generalizing storage with
  | nil => exact List.nodup_nil
  | cons operation history inductionHypothesis =>
      have moves := storage.moves_perform (Ne.symm (List.ne_of_not_mem_cons kept))
      have later := List.not_mem_of_not_mem_cons kept
      have heapBegins (storage : Storage) : heapStart ≤ storage.heap.nextAddress :=
        Nat.le_add_right _ _
      refine List.nodup_append.mpr ⟨by simp [Option.toList]; split <;> simp,
        inductionHypothesis later fits, ?_⟩
      rintro address here other afterwards rfl
      rw [Option.mem_toList.mp here] at moves
      -- The one counter has passed the address, and the other region does not reach it.
      rcases moves.given with ⟨placed, passed⟩ | ⟨placed, passed⟩
      · have below : address < heapStart :=
          Nat.lt_of_lt_of_le passed (Nat.le_trans (nextStackAddress_le_after _ later) fits)
        rcases mem_handedOut later afterwards with ⟨start, -⟩ | start
        · exact Nat.lt_irrefl _ (Nat.lt_of_lt_of_le passed start)
        · exact Nat.lt_irrefl _
            (Nat.lt_of_lt_of_le below (Nat.le_trans (heapBegins _) start))
      · rcases mem_handedOut later afterwards with ⟨-, bound⟩ | start
        · exact Nat.lt_irrefl _
            (Nat.lt_of_lt_of_le bound (Nat.le_trans fits (placed ▸ heapBegins storage)))
        · exact Nat.lt_irrefl _ (Nat.lt_of_lt_of_le passed start)

/-! ### Where an address leads -/

theorem locate?_isSome_iff :
    (storage.locate? address).isSome ↔ address ∈ storage.stackAddresses := by
  rw [stackAddresses, List.mem_map]
  constructor
  · intro located
    obtain ⟨⟨depth, index⟩, found⟩ := Option.isSome_iff_exists.mp located
    obtain ⟨below, frame, above, first, slot, rest, frames, -, slots, -, here, -⟩ :=
      locateIn_eq_some found
    refine ⟨slot, ?_, here⟩
    simp [stackSlots, frames, slots]
  · rintro ⟨slot, member, rfl⟩
    cases located : storage.locate? slot.address with
    | some place => rfl
    | none => simpa using List.find?_eq_none.mp (locateIn_eq_none located) slot member

theorem locate?_eq_none (absent : address ∉ storage.stackAddresses) :
    storage.locate? address = none :=
  Option.not_isSome_iff_eq_none.mp (mt locate?_isSome_iff.mp absent)

theorem contains_eq_isSome (heap : Heap) (address : Address) :
    heap.contains address = (heap.get? address).isSome := by
  rw [Heap.contains, Heap.get?, Option.isSome_map]

/-- No address leads both ways. -/
theorem Orderly.apart (orderly : storage.Orderly) (fits : storage.Fits) (address : Address) :
    ¬ (address ∈ storage.stackAddresses ∧ storage.heap.contains address) := by
  rintro ⟨onStack, inHeap⟩
  have below := Nat.lt_of_lt_of_le (orderly.below address onStack) fits
  rw [contains_eq_isSome, Heap.get?_eq_none_of_lt below] at inHeap
  cases inHeap

theorem Orderly.placementOf_eq (orderly : storage.Orderly) (fits : storage.Fits) {slot : Slot}
    (found : storage.slot address = .ok slot) :
    storage.placementOf address =
      if (storage.locate? address).isSome then .stack else .heap := by
  by_cases onStack : address ∈ storage.stackAddresses
  · have notInHeap := fun inHeap => orderly.apart fits address ⟨onStack, inHeap⟩
    rw [placementOf, if_neg notInHeap, if_pos (locate?_isSome_iff.mpr onStack)]
  · have notLocated := locate?_eq_none onStack
    rw [Storage.slot, notLocated] at found
    have inHeap : storage.heap.contains address := by
      rw [contains_eq_isSome]
      cases present : storage.heap.get? address with
      | some object => rfl
      | none =>
          simp only [present] at found
          split at found <;> cases found
    rw [placementOf, if_pos inHeap, notLocated]
    rfl

/-! ### Slots of frames that are gone -/

/-- A stack address that was handed out and whose slot does not live. -/
def Gone (storage : Storage) (address : Address) : Prop :=
  address < storage.nextStackAddress ∧ address ∉ storage.stackAddresses

theorem Gone.moves {onStack : Bool} {given : Option Address} (gone : storage.Gone address)
    (moves : storage.Moves changed onStack given) : changed.Gone address := by
  obtain ⟨passed, absent⟩ := gone
  refine ⟨Nat.lt_of_lt_of_le passed (moves.stackEnd ▸ Nat.le_add_right _ _), fun member => ?_⟩
  cases moves with
  | stays _ _ addresses => exact absent (addresses.subset member)
  | stack _ _ addresses =>
      rcases List.mem_append.mp (addresses ▸ member) with old | new
      · exact absent old
      · exact absurd (List.mem_singleton.mp new ▸ passed) (Nat.lt_irrefl _)
  | heap _ _ addresses => exact absent (addresses ▸ member)

theorem Gone.after (gone : storage.Gone address) (kept : .discard ∉ history) :
    (storage.after history).Gone address := by
  induction history generalizing storage with
  | nil => exact gone
  | cons operation history inductionHypothesis =>
      have moves := storage.moves_perform (Ne.symm (List.ne_of_not_mem_cons kept))
      exact inductionHypothesis (gone.moves moves) (List.not_mem_of_not_mem_cons kept)

/-- Popping a frame makes an end of its slots. -/
theorem Orderly.gone_popFrame (orderly : storage.Orderly) {frame : Frame}
    (popped : storage.popFrame? = some (frame, changed)) {slot : Slot}
    (member : slot ∈ frame.slots) : storage.popFrame.Gone slot.address := by
  obtain ⟨called, top, -⟩ := popFrame?_eq_some popped
  have slots := stackSlots_popFrame called
  have addresses : storage.stackAddresses =
      storage.popFrame.stackAddresses ++ frame.slots.map (·.address) := by
    rw [stackAddresses, stackAddresses, slots, List.map_append, top]
  have inFrame : slot.address ∈ frame.slots.map (·.address) := List.mem_map_of_mem member
  have distinct := addresses ▸ orderly.distinct
  refine ⟨?_, fun below => (List.nodup_append.mp distinct).2.2 _ below _ inFrame rfl⟩
  rw [(heap_popFrame storage).2.1]
  exact orderly.below _ (addresses ▸ List.mem_append_right _ inFrame)

theorem Gone.slot_eq (gone : storage.Gone address) (fits : storage.Fits) :
    storage.slot address = .error (.dangling address) := by
  have below : address < heapStart := Nat.lt_of_lt_of_le gone.1 fits
  rw [slot, locate?_eq_none gone.2, Heap.get?_eq_none_of_lt below]
  exact if_pos below

/-! ### Together -/

/-- The stack slots that fit below the heap. -/
def stackRoom : Nat := 33554431

theorem fits_after (kept : .discard ∉ history)
    (few : history.countP Operation.onStack ≤ stackRoom) : (empty.after history).Fits := by
  rw [Fits, nextStackAddress_after empty kept]
  unfold Address
  simp only [empty, stackStart, slotSize, heapStart, stackRoom] at few ⊢
  omega

theorem addresses_apart (history : List Operation) (kept : .discard ∉ history)
    (few : history.countP Operation.onStack ≤ stackRoom) :
    (empty.handedOut history).Nodup ∧
      (∀ address, ¬ (address ∈ (empty.after history).stackAddresses ∧
        (empty.after history).heap.contains address)) ∧
      (∀ earlier later frame below, history = earlier ++ .popFrame :: later →
        (empty.after earlier).popFrame? = some (frame, below) →
        ∀ slot ∈ frame.slots,
          (empty.after history).slot slot.address = .error (.dangling slot.address) ∧
          ∀ path, (empty.after history).dereference (.pointerTo ⟨slot.address, path⟩) =
            .error (.dangling slot.address)) ∧
      ∀ address slot, (empty.after history).slot address = .ok slot →
        (empty.after history).placementOf address =
          if ((empty.after history).locate? address).isSome then .stack else .heap := by
  have fits := fits_after kept few
  have orderly := Orderly.empty.after history
  refine ⟨nodup_handedOut kept fits, orderly.apart fits, ?_, fun address slot found =>
    orderly.placementOf_eq fits found⟩
  rintro earlier later frame below rfl popped slot member
  have laterKept : .discard ∉ later := fun discarded =>
    kept (List.mem_append_right _ (List.mem_cons_of_mem _ discarded))
  have gone := ((Orderly.empty.after earlier).gone_popFrame popped member).after laterKept
  rw [after_append] at fits ⊢
  have lost := gone.slot_eq fits
  refine ⟨lost, fun path => ?_⟩
  simp only [Value.pointerTo, dereference]
  exact congrArg (· >>= _) lost

/-- A local of a call and a slot of the heap: after the call, the local is gone. -/
theorem addresses_apart_call :
    (empty.after [.pushFrame "f" none, .declare "x" .value none .stack (.int 1),
        .declare "y" .value none .heap (.int 2), .popFrame]).slot stackStart =
      .error (.dangling stackStart) := by
  obtain ⟨-, -, lost, -⟩ := addresses_apart
    [.pushFrame "f" none, .declare "x" .value none .stack (.int 1),
      .declare "y" .value none .heap (.int 2), .popFrame] (by simp) (by decide)
  exact (lost [_, _, _] [] _ _ rfl rfl ⟨"x", .value, .int 1, none, stackStart⟩
    (List.mem_singleton_self _)).1

/-! ### Past the end -/

theorem mem_handedOut_replicate (storage : Storage) (name : String) (kind : Kind)
    (site : Option SiteId) (value : Value) {index count : Nat} (inside : index < count) :
    storage.nextStackAddress + slotSize * index ∈
      storage.handedOut (List.replicate count (.allocate name kind site .stack value)) := by
  induction count generalizing storage index with
  | zero => exact absurd inside (Nat.not_lt_zero _)
  | succ count inductionHypothesis =>
      rw [List.replicate_succ, handedOut]
      cases index with
      | zero => exact List.mem_append_left _ (List.mem_singleton_self _)
      | succ index =>
          refine List.mem_append_right _ ?_
          have found := inductionHypothesis
            (storage.perform (.allocate name kind site .stack value)).2
            (Nat.lt_of_succ_lt_succ inside)
          have moved : (storage.perform
              (.allocate name kind site .stack value)).2.nextStackAddress =
                storage.nextStackAddress + slotSize := rfl
          rwa [moved, Nat.add_assoc, Nat.add_comm slotSize, ← Nat.mul_succ] at found

/-- The two regions meet where the stack reaches the heap. -/
theorem not_nodup_handedOut (name : String) (kind : Kind) (site : Option SiteId) (value : Value)
    {index count : Nat} (inside : index < count)
    (reached : stackStart + slotSize * index = heapStart) :
    ¬ (empty.handedOut (.allocate name kind site .heap value ::
      List.replicate count (.allocate name kind site .stack value))).Nodup := by
  intro distinct
  rw [handedOut] at distinct
  have again := mem_handedOut_replicate
    (empty.perform (.allocate name kind site .heap value)).2 name kind site value inside
  have first : heapStart ∈ (empty.perform (.allocate name kind site .heap value)).1.toList :=
    List.mem_singleton_self _
  exact (List.nodup_append.mp distinct).2.2 _ first _ again reached.symm

/-- A discard starts over with the first address, and without one the stack slot after the last
one that fits gets the first address of the heap. -/
theorem handedOut_repeats :
    ¬ (empty.handedOut [.allocate "x" .value none .stack (.int 0), .discard,
        .allocate "x" .value none .stack (.int 0)]).Nodup ∧
      ¬ (empty.handedOut (.allocate "x" .value none .heap (.int 0) ::
        List.replicate 33554432 (.allocate "x" .value none .stack (.int 0)))).Nodup := by
  have inside : 33554431 < 33554432 := by decide
  exact ⟨by decide, not_nodup_handedOut "x" .value none (.int 0) inside (by decide)⟩

end Storage

end ReferenceSemantics

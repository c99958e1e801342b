import ReferenceSemantics.Proofs.Storage.Filled
import ReferenceSemantics.Proofs.Value.Zero

set_option autoImplicit false

/-!
Spare capacity that was made for a value.

A block that is made of values gets the zero of the first one into its spare cells, and so does every
block that grows from it, whatever is written in the meantime. That zero counts for nothing where
objects are looked for, and what is appended is evaluated for the kind of the value.
-/

namespace ReferenceSemantics

namespace Storage

variable {storage : Storage} {address : Address} {value : Value}

/-! ### Blocks that come from a block -/

/-- From a block on, the block in a later storage, or one that appends have made of it. -/
inductive Descends (storage : Storage) (address : Address) : Storage → Address → Prop where
  | same : Descends storage address storage address
  | step {later changed : Storage} {block : Address}
      (descends : Descends storage address later block) (step : later.Step changed) :
      Descends storage address changed block
  | append {later changed : Storage} {block next : Address} {len cap offset : Nat}
      {values : List Value} {header : Value} (descends : Descends storage address later block)
      (appended : later.append (.referenceHeader len cap offset (some block)) values =
        .ok (header, changed))
      (behind : header.behind? = some next) : Descends storage address changed next

theorem Descends.filledAt {fill : Value} {later : Storage} {block : Address}
    (descends : storage.Descends address later block)
    (filled : storage.heap.FilledAt address fill) : later.heap.FilledAt block fill := by
  induction descends with
  | same => exact filled
  | step _ step inductionHypothesis => exact step.filledAt inductionHypothesis
  | append _ appended behind inductionHypothesis =>
      exact filledAt_append inductionHypothesis appended behind

/-- What moves a machine by elementary steps leaves the block where it is. -/
theorem descends_of_steps {machine later : Machine} (steps : machine.Steps later)
    (address : Address) : machine.storage.Descends address later.storage address := by
  induction steps with
  | refl => exact .same
  | tail _ step inductionHypothesis =>
      cases step with
      | storage changed step => exact inductionHypothesis.step step
      | record | tick | capture => exact inductionHypothesis

/-! ### Cells that are left out -/

open Classical in
/-- The storage with those cells of a block left out that hold a value. -/
noncomputable def withoutCells (storage : Storage) (address : Address) (value : Value) : Storage :=
  match storage.block address with
  | .ok content =>
      let cells := content.cells.filter (· ≠ value)
      { storage with heap := storage.heap.set address (.block { content with cells }) }
  | .error _ => storage

/-- An object may be replaced by one that refers to the same. -/
theorem reachableHeap_heapSet {old new : HeapObject}
    (found : storage.heap.get? address = some old) (same : new.references = old.references) :
    ({ storage with heap := storage.heap.set address new } : Storage).reachableHeap =
      storage.reachableHeap := by
  have references : (storage.heap.set address new).referencesAt = storage.heap.referencesAt := by
    funext other
    rw [Heap.referencesAt, Heap.referencesAt, Heap.get?_set new other found]
    split
    next here => rw [here, found, Option.map_some, Option.map_some, same]
    next => rfl
  have addresses : (storage.heap.set address new).addresses = storage.heap.addresses := by
    rw [Heap.addresses, Heap.addresses, Heap.size_set]
  have roots :
      ({ storage with heap := storage.heap.set address new } : Storage).roots = storage.roots := rfl
  rw [reachableHeap, reachableHeap, Heap.reachableFrom, Heap.reachableFrom, references, addresses,
    roots]

/-- Cells that refer to nothing can be left out. -/
theorem reachableHeap_withoutCells (storage : Storage) (address : Address)
    (inert : value.references = []) :
    (storage.withoutCells address value).reachableHeap = storage.reachableHeap := by
  unfold withoutCells
  split
  next content read =>
    refine reachableHeap_heapSet (block_eq_ok_iff.mp read) ?_
    simp only [HeapObject.references, HeapObject.values]
    induction content.cells with
    | nil => rfl
    | cons cell cells inductionHypothesis =>
        by_cases spare : cell = value
        · simpa [spare, inert] using inductionHypothesis
        · simpa [spare] using inductionHypothesis
  next => rfl

/-! ### Spare capacity -/

/-- The spare capacity of the block has the form of the value and leads to no object. -/
structure SpareLike (storage : Storage) (address : Address) (value : Value) : Prop where
  /-- What is appended to the block is evaluated for the kind of the value. -/
  kind : ∀ len cap offset,
    storage.elementKind (.referenceHeader len cap offset (some address)) = .ok (some value.kind)
  /-- Without the cells that hold the zero, the same objects are reachable. -/
  reachable : (storage.withoutCells address value.zeroLike).reachableHeap = storage.reachableHeap
  /-- Past the capacity an append makes a block with the zero behind the new values. -/
  grows : ∀ len cap offset values, values ≠ [] → cap < len + values.length →
    ∃ header changed next seen spare,
      storage.append (.referenceHeader len cap offset (some address)) values =
          .ok (header, changed) ∧
        header.behind? = some next ∧
        changed.block next =
          .ok ⟨seen ++ values ++ List.replicate spare value.zeroLike, value.zeroLike⟩

theorem spareLike_of_filledAt (filled : storage.heap.FilledAt address value.zeroLike) :
    storage.SpareLike address value := by
  obtain ⟨cells, opened⟩ := filledAt_iff.mp filled
  refine ⟨fun len cap offset => ?_, ?_, fun len cap offset values notEmpty full => ?_⟩
  · rw [elementKind, opened, Except.ok_bind, Value.kind_zeroLike]
    rfl
  · exact reachableHeap_withoutCells storage address value.references_zeroLike
  · have appended :
        storage.append (.referenceHeader len cap offset (some address)) values = .ok _ :=
      append_of_full notEmpty opened (Nat.not_le.mpr full)
    exact ⟨_, _, storage.heap.nextAddress, (cells.drop offset).take len, _, appended, rfl,
      block_heapPush storage _⟩

/-- A header of a block of values that has so many spare cells behind them. They hold the zero of the
first value, and what becomes of the block by later steps and appends has spare capacity like it. -/
structure SparesLike (storage : Storage) (header : Value) (len spare : Nat) (first : Value)
    (rest : List Value) : Prop where
  opened : ∃ address,
    header = .referenceHeader len (rest.length + 1 + spare) 0 (some address) ∧
      storage.block address =
        .ok ⟨first :: rest ++ List.replicate spare first.zeroLike, first.zeroLike⟩
  lasts : ∀ address later block, header.behind? = some address →
    storage.Descends address later block → later.SpareLike block first

/-- A block that is made of values and filled up with the zero of the first one. -/
theorem sparesLike_allocBlock (storage : Storage) (first : Value) (rest : List Value)
    {len capacity : Nat} (within : len ≤ max (rest.length + 1) capacity) :
    let allocated := storage.allocBlock (padCells (first :: rest) capacity first.zeroLike) len
      first.zeroLike
    allocated.2.SparesLike allocated.1 len (capacity - (rest.length + 1)) first rest := by
  intro allocated
  let spare := capacity - (rest.length + 1)
  have cells : padCells (first :: rest) capacity first.zeroLike =
      first :: rest ++ List.replicate spare first.zeroLike := rfl
  have length : (padCells (first :: rest) capacity first.zeroLike).length =
      rest.length + 1 + spare := by
    rw [cells, List.length_append, List.length_replicate, List.length_cons]
  have opened : allocated.2.block storage.heap.nextAddress =
      .ok ⟨first :: rest ++ List.replicate spare first.zeroLike, first.zeroLike⟩ :=
    block_heapPush storage _
  refine ⟨⟨storage.heap.nextAddress, ?_, opened⟩, fun address later block behind descends => ?_⟩
  · show Value.referenceHeader (min len _) _ 0 _ = _
    rw [length, Nat.min_eq_left (by omega)]
  · obtain rfl : storage.heap.nextAddress = address := Option.some.inj behind
    exact spareLike_of_filledAt (descends.filledAt (filledAt_iff.mpr ⟨_, opened⟩))

/-- The first values of a header without a block get a block of their own. -/
theorem append_none_sparesLike (storage : Storage) (len cap offset : Nat) (first : Value)
    (rest : List Value) :
    ∃ header changed,
      storage.append (.referenceHeader len cap offset none) (first :: rest) =
          .ok (header, changed) ∧
        changed.SparesLike header (len + (rest.length + 1))
          (max (len + (rest.length + 1)) (cap * 2) - (rest.length + 1)) first rest := by
  have within : len + (rest.length + 1) ≤
      max (rest.length + 1) (max (len + (rest.length + 1)) (cap * 2)) := by omega
  exact ⟨_, _, rfl, storage.sparesLike_allocBlock first rest within⟩

end Storage

end ReferenceSemantics

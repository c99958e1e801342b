import ReferenceSemantics.Proofs.Graph.Search
import ReferenceSemantics.Proofs.Storage.Garbage

set_option autoImplicit false

/-!
What live frames lead to, and what a sweep marks.

An object refers to the addresses in the values that it stores, at any depth inside of them. The
heap addresses that a chain of references connects to a binding or to a slot of a live frame are
reachable, in whatever order a search finds them. A sweep marks the live objects that are not, and
leaves nothing to mark for the next one.
-/

namespace ReferenceSemantics

namespace Value

/-- The address is the target of a pointer or the block or table of a header, at any depth. -/
inductive Mentions : Value → Address → Prop where
  | pointer (target : SlotRef) : Mentions (.pointer (some target)) target.address
  | block (len cap offset : Nat) (block : Address) :
      Mentions (.referenceHeader len cap offset (some block)) block
  | table (table : Address) : Mentions (.keyValueHeader (some table)) table
  | field {typeName name : String} {fields : List (String × Value)} {value : Value}
      {address : Address} (member : (name, value) ∈ fields) (inside : value.Mentions address) :
      Mentions (.composite typeName fields) address
  | boxed {typeTag : Option String} {value : Value} {address : Address}
      (inside : value.Mentions address) : Mentions (.interfaceBox typeTag value) address

variable {address : Address}

mutual

theorem mentions_of_references :
    ∀ value : Value, address ∈ value.references → value.Mentions address
  | primitive _, member => by simp [references] at member
  | composite typeName fields, member => by
      rw [references] at member
      obtain ⟨name, value, inFields, inside⟩ := mentions_of_referencesOfFields fields member
      exact .field inFields inside
  | referenceHeader len cap offset block, member => by
      rw [references, Option.mem_toList] at member
      obtain rfl := Option.mem_def.mp member
      exact .block len cap offset address
  | keyValueHeader table, member => by
      rw [references, Option.mem_toList] at member
      obtain rfl := Option.mem_def.mp member
      exact .table address
  | pointer target, member => by
      rw [references, Option.mem_toList] at member
      obtain ⟨target, rfl, rfl⟩ := Option.map_eq_some_iff.mp member
      exact .pointer target
  | interfaceBox _ value, member => by
      rw [references] at member
      exact .boxed (mentions_of_references value member)

theorem mentions_of_referencesOfFields :
    ∀ fields : List (String × Value), address ∈ referencesOfFields fields →
      ∃ name value, (name, value) ∈ fields ∧ value.Mentions address
  | [], member => by simp [referencesOfFields] at member
  | (name, value) :: fields, member => by
      rw [referencesOfFields] at member
      rcases List.mem_append.mp member with here | later
      · exact ⟨name, value, List.mem_cons_self .., mentions_of_references value here⟩
      · obtain ⟨other, found, inFields, inside⟩ := mentions_of_referencesOfFields fields later
        exact ⟨other, found, List.mem_cons_of_mem _ inFields, inside⟩

end

/-- The references of a value are the addresses that it mentions. -/
theorem mem_references {value : Value} : address ∈ value.references ↔ value.Mentions address := by
  refine ⟨mentions_of_references value, fun mentions => ?_⟩
  induction mentions with
  | pointer | block | table => simp [references]
  | field member _ inductionHypothesis =>
      rw [references, referencesOfFields_eq]
      exact List.mem_flatMap.mpr ⟨_, member, inductionHypothesis⟩
  | boxed _ inductionHypothesis =>
      rw [references]
      exact inductionHypothesis

end Value

/-- The value is the content of a slot, a cell of a block, or a key or a value of a table. -/
inductive HeapObject.Stores : HeapObject → Value → Prop where
  | slot (slot : Slot) : Stores (.slot slot) slot.value
  | cell {block : Block} {value : Value} (member : value ∈ block.cells) :
      Stores (.block block) value
  | key {table : Table} {key value : Value} (member : (key, value) ∈ table.entries) :
      Stores (.table table) key
  | value {table : Table} {key value : Value} (member : (key, value) ∈ table.entries) :
      Stores (.table table) value

theorem HeapObject.mem_values {object : HeapObject} {value : Value} :
    value ∈ object.values ↔ object.Stores value := by
  constructor
  · intro member
    cases object with
    | slot slot => exact List.mem_singleton.mp member ▸ .slot slot
    | block block => exact .cell member
    | table table =>
        obtain ⟨⟨key, stored⟩, inEntries, here⟩ := List.mem_flatMap.mp member
        simp only [List.mem_cons, List.not_mem_nil, or_false] at here
        rcases here with rfl | rfl
        · exact .key inEntries
        · exact .value inEntries
  · intro stores
    cases stores with
    | slot => exact List.mem_singleton.mpr rfl
    | cell member => exact member
    | key member => exact List.mem_flatMap.mpr ⟨_, member, List.mem_cons_self ..⟩
    | value member => exact List.mem_flatMap.mpr ⟨_, member, List.mem_cons_of_mem _ (by simp)⟩

namespace Heap

/-- The object at an address stores a value that mentions another address. -/
def Refers (heap : Heap) (holder held : Address) : Prop :=
  ∃ object value, heap.get? holder = some object ∧ object.Stores value ∧ value.Mentions held

variable {heap : Heap} {roots : List Address}

theorem mem_referencesAt {holder held : Address} :
    held ∈ heap.referencesAt holder ↔ heap.Refers holder held := by
  rw [referencesAt, Refers]
  cases heap.get? holder with
  | none => simp
  | some object =>
      simp only [Option.map_some, Option.getD_some, HeapObject.references, List.mem_flatMap,
        HeapObject.mem_values, Value.mem_references, Option.some.injEq, exists_and_left,
        exists_eq_left']

theorem Refers.contains {holder held : Address} (refers : heap.Refers holder held) :
    heap.contains holder := by
  obtain ⟨object, -, found, -⟩ := refers
  rw [Storage.contains_eq_isSome, found]
  rfl

/-- The edges between heap addresses are the references. -/
theorem edge_iff {holder held : Address} :
    Edge heap.referencesAt (heap.contains ·) holder held ↔ heap.Refers holder held := by
  rw [Edge, mem_referencesAt]
  exact ⟨And.right, fun refers => ⟨refers.contains, refers⟩⟩

theorem connected_iff {address : Address} :
    Connected heap.referencesAt (heap.contains ·) roots address ↔
      heap.contains address ∧ ∃ root ∈ roots, Relation.ReflTransGen heap.Refers root address := by
  have edges : Edge heap.referencesAt (heap.contains ·) = heap.Refers :=
    funext fun _ => funext fun _ => propext edge_iff
  rw [Connected, edges]

/-- The heap addresses that chains of references connect to the roots. -/
theorem mem_reachableFrom {address : Address} :
    address ∈ heap.reachableFrom roots ↔
      heap.contains address ∧ ∃ root ∈ roots, Relation.ReflTransGen heap.Refers root address := by
  have inside : (· ∈ heap.addresses) = (heap.contains · = true) :=
    funext fun _ => propext Storage.mem_addresses
  rw [reachableFrom, List.mem_filter, List.contains_iff_mem, mem_reach_iff, inside, connected_iff,
    Storage.mem_addresses]
  exact ⟨And.right, fun connected => ⟨connected.1, connected⟩⟩

/-- Cycles and addresses of nothing do not keep a search from ending. -/
theorem search_terminates (heap : Heap) (roots : List Address) :
    Search.Terminates heap.referencesAt (heap.contains ·) ⟨[], roots⟩ :=
  Search.terminates (fun _ _ _ inside => Storage.mem_addresses.mpr inside) _
    fun _ _ inside => Storage.mem_addresses.mpr inside

/-! ### States -/

/-- The entries are listed with their addresses. -/
theorem entry?_of_toList {heap : Heap} {address : Address} {entry : HeapEntry}
    (member : (address, entry) ∈ heap.toList) : heap.entry? address = some entry := by
  obtain ⟨index, bound, same⟩ := List.mem_iff_getElem.mp member
  have zipped := (List.getElem_zip ..).symm.trans same
  obtain ⟨here, there⟩ := Prod.mk.inj zipped
  rw [← here, ← there]
  simp only [addresses, List.getElem_map, List.getElem_range, entry?_addressOf,
    Array.getElem_toList]
  exact Array.getElem?_eq_getElem _

theorem map_state?_addresses (heap : Heap) :
    heap.addresses.map heap.state? = heap.entries.toList.map fun entry => some entry.state := by
  apply List.ext_getElem
  · simp [addresses, size]
  · intro index first second
    simp only [addresses, List.map_map, List.getElem_map, List.getElem_range, Function.comp_apply,
      state?, entry?_addressOf, Array.getElem_toList]
    rw [Array.getElem?_eq_getElem]
    rfl

/-- The objects in a state are counted at their addresses. -/
theorem count_eq (heap : Heap) (state : HeapState) :
    heap.count state = heap.addresses.countP (heap.state? · == some state) := by
  have listed := congrArg (List.countP (· == some state)) heap.map_state?_addresses
  rw [List.countP_map, List.countP_map] at listed
  rw [count, ← Array.countP_toList]
  exact listed.symm

/-- Every object is in one of the two states. -/
theorem count_add_count (heap : Heap) :
    heap.count .live + heap.count .unreachable = heap.size := by
  rw [count, count, ← Array.countP_toList, ← Array.countP_toList, size, ← Array.length_toList,
    List.length_eq_countP_add_countP fun entry : HeapEntry => entry.state == .live]
  congr 2
  funext entry
  cases entry.state <;> rfl

theorem addresses_markUnreachable (heap : Heap) (reachable : List Address) :
    (heap.markUnreachable reachable).addresses = heap.addresses := by
  simp [addresses, size, markUnreachable]

/-- What is marked once is marked. -/
theorem markUnreachable_twice (heap : Heap) (reachable : List Address) :
    (heap.markUnreachable reachable).markUnreachable reachable =
      heap.markUnreachable reachable := by
  simp only [markUnreachable, Array.mapIdx_mapIdx]
  congr 2
  funext index entry
  simp only [Function.comp_apply]
  split <;> simp [*]

end Heap

namespace Storage

/-- A live frame binds a name to the address, or a slot of it mentions the address. -/
inductive FrameHolds (storage : Storage) : Address → Prop where
  | binding {frame : Frame} {name : String} {address : Address} (live : frame ∈ storage.frames)
      (bound : (name, address) ∈ frame.bindings) : FrameHolds storage address
  | slot {frame : Frame} {slot : Slot} {address : Address} (live : frame ∈ storage.frames)
      (member : slot ∈ frame.slots) (mentions : slot.value.Mentions address) :
      FrameHolds storage address

/-- A chain of references leads to the address from what a live frame holds. -/
def LeadsTo (storage : Storage) (address : Address) : Prop :=
  ∃ root, storage.FrameHolds root ∧ Relation.ReflTransGen storage.heap.Refers root address

variable {storage : Storage} {address : Address}

theorem mem_roots_iff : address ∈ storage.roots ↔ storage.FrameHolds address := by
  rw [mem_roots]
  constructor
  · rintro ⟨frame, live, ⟨⟨name, bound⟩, member, rfl⟩ | ⟨slot, member, held⟩⟩
    · exact .binding live member
    · exact .slot live member (Value.mem_references.mp held)
  · rintro (⟨live, bound⟩ | ⟨live, member, mentions⟩)
    · exact ⟨_, live, .inl ⟨_, bound, rfl⟩⟩
    · exact ⟨_, live, .inr ⟨_, member, Value.mem_references.mpr mentions⟩⟩

theorem mem_reachableHeap :
    address ∈ storage.reachableHeap ↔ storage.heap.contains address ∧ storage.LeadsTo address := by
  simp only [reachableHeap, Heap.mem_reachableFrom, mem_roots_iff, LeadsTo]

/-! ### Sweeping -/

theorem reachableHeap_sweep (storage : Storage) :
    storage.sweep.2.reachableHeap = storage.reachableHeap := by
  have references : storage.sweep.2.heap.referencesAt = storage.heap.referencesAt := by
    funext address
    rw [Heap.referencesAt, Heap.referencesAt, sweep, Heap.get?_markUnreachable]
  have addresses : storage.sweep.2.heap.addresses = storage.heap.addresses :=
    storage.heap.addresses_markUnreachable _
  have roots : storage.sweep.2.roots = storage.roots := rfl
  rw [reachableHeap, reachableHeap, Heap.reachableFrom, Heap.reachableFrom, references, addresses,
    roots]

/-- A second sweep finds nothing to mark. -/
theorem sweep_sweep (storage : Storage) : storage.sweep.2.sweep = (0, storage.sweep.2) := by
  have heap : storage.sweep.2.heap.markUnreachable storage.sweep.2.reachableHeap =
      storage.sweep.2.heap := by
    rw [reachableHeap_sweep]
    exact storage.heap.markUnreachable_twice _
  rw [sweep, heap, Nat.sub_self]

theorem state?_sweep_of_leadsTo (reaches : storage.LeadsTo address) :
    storage.sweep.2.heap.state? address = storage.heap.state? address := by
  rw [sweep, state?_markUnreachable]
  cases state : storage.heap.state? address with
  | none => rfl
  | some found =>
      obtain ⟨entry, present, -⟩ := Option.map_eq_some_iff.mp state
      have inHeap : storage.heap.contains address := Option.isSome_of_eq_some present
      have reachable := List.contains_iff_mem.mpr (mem_reachableHeap.mpr ⟨inHeap, reaches⟩)
      rw [Option.map_some, if_pos reachable]

theorem state?_sweep_of_not_leadsTo (lost : ¬ storage.LeadsTo address) :
    storage.sweep.2.heap.state? address =
      (storage.heap.state? address).map fun _ => .unreachable := by
  have unreachable : ¬ storage.reachableHeap.contains address = true := fun reachable =>
    lost (mem_reachableHeap.mp (List.contains_iff_mem.mp reachable)).2
  rw [sweep, state?_markUnreachable]
  simp only [if_neg unreachable]

/-- A sweep changes the state of exactly the live objects that are not reachable. -/
theorem state?_sweep_ne_iff :
    storage.sweep.2.heap.state? address ≠ storage.heap.state? address ↔
      storage.heap.state? address = some .live ∧ ¬ storage.LeadsTo address := by
  constructor
  · intro changed
    have lost : ¬ storage.LeadsTo address := fun reached =>
      changed (state?_sweep_of_leadsTo reached)
    rw [state?_sweep_of_not_leadsTo lost] at changed
    refine ⟨?_, lost⟩
    cases state : storage.heap.state? address with
    | none => simp [state] at changed
    | some found => cases found <;> simp [state] at changed ⊢
  · rintro ⟨live, lost⟩
    rw [state?_sweep_of_not_leadsTo lost, live]
    simp

/-- What is live after a sweep was live and is reachable. -/
theorem state?_sweep_eq_live_iff :
    storage.sweep.2.heap.state? address = some .live ↔
      storage.heap.state? address = some .live ∧ storage.LeadsTo address := by
  by_cases reaches : storage.LeadsTo address
  · rw [state?_sweep_of_leadsTo reaches]
    exact (and_iff_left reaches).symm
  · rw [state?_sweep_of_not_leadsTo reaches]
    cases storage.heap.state? address <;> simp [reaches]

/-- What is counted is counted in two parts. -/
theorem countP_eq_add {α : Type} {whole first second : α → Bool} {items : List α}
    (split : ∀ item, (if whole item then 1 else 0) =
      (if first item then 1 else 0) + if second item then 1 else 0) :
    items.countP whole = items.countP first + items.countP second := by
  induction items with
  | nil => rfl
  | cons item items inductionHypothesis =>
      rw [List.countP_cons, List.countP_cons, List.countP_cons, inductionHypothesis, split item]
      omega

/-- A sweep returns the number of objects whose state it changes. -/
theorem sweep_fst (storage : Storage) :
    storage.sweep.1 = (storage.heap.addresses.filter fun address =>
      storage.sweep.2.heap.state? address ≠ storage.heap.state? address).length := by
  have counted : storage.heap.count .live = storage.sweep.2.heap.count .live +
      storage.heap.addresses.countP fun address =>
        storage.sweep.2.heap.state? address ≠ storage.heap.state? address := by
    have addresses : storage.sweep.2.heap.addresses = storage.heap.addresses :=
      storage.heap.addresses_markUnreachable _
    rw [Heap.count_eq, Heap.count_eq, addresses]
    apply countP_eq_add
    intro address
    by_cases reaches : storage.LeadsTo address
    · simp [state?_sweep_of_leadsTo reaches]
    · rw [state?_sweep_of_not_leadsTo reaches]
      cases storage.heap.state? address with
      | none => rfl
      | some state => cases state <;> rfl
  rw [← List.countP_eq_length_filter]
  exact Nat.sub_eq_of_eq_add' counted

end Storage

end ReferenceSemantics

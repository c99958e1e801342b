import ReferenceSemantics.Proofs.Run.Simulation

set_option autoImplicit false

/-!
Operations on storage in a simulation: linked operands give linked results.
-/

namespace ReferenceSemantics

open Value (Linked)

namespace Simulation

variable {sim : Simulation} {world : sim.World} {storage storage' : Storage}
  {location : Location}

/-- Linked values. -/
def values (sim : Simulation) (world : sim.World) : Value → Value → Prop :=
  Linked (sim.links world)

/-- Linked references. -/
def refs (sim : Simulation) (world : sim.World) : SlotRef → SlotRef → Prop :=
  (sim.links world).Ref

theorem values_mono {later : sim.World} {value value' : Value} (grown : sim.Le world later)
    (linked : sim.values world value value') : sim.values later value value' :=
  Linked.mono (sim.links_mono grown) linked

theorem refs_mono {later : sim.World} {ref ref' : SlotRef} (grown : sim.Le world later)
    (linked : sim.refs world ref ref') : sim.refs later ref ref' :=
  ⟨linked.1, (sim.links_mono grown).slot linked.2⟩

/-! ### Slots -/

theorem Answer.slot {address address' : Address}
    (related : sim.storages world storage storage')
    (linked : (sim.links world).slot address address') :
    Answer sim location (sim.links world).Slots (storage.slot address)
      (storage'.slot address') := by
  rcases sim.readSlot related linked with
    ⟨slot, slot', read, read', slots⟩ | ⟨gone, read, isOpen | read'⟩
  · rw [read, read']
    exact .found slots
  · rw [read]
    exact .left_open (isOpen location)
  · rw [read, read']
    exact .refused trivial

theorem Answer.load {ref ref' : SlotRef} (related : sim.storages world storage storage')
    (linked : sim.refs world ref ref') :
    Answer sim location (sim.values world) (storage.load ref) (storage'.load ref') := by
  refine (Answer.slot related linked.2).bind fun slot slot' slots => ?_
  have inner := slots.2.atPath? ref.path
  rw [← linked.1]
  generalize slot.value.atPath? ref.path = found at inner
  generalize slot'.value.atPath? ref.path = found' at inner
  cases inner with
  | none => exact .refused trivial
  | some inner => exact .found inner

theorem Agree.load {ref ref' : SlotRef} (linked : sim.refs world ref ref') :
    sim.Agree world (Run.load location ref) (Run.load location ref') sim.values :=
  .read fun related => .load related linked

theorem Agree.lookup (name : String) :
    sim.Agree world (Run.lookup name location) (Run.lookup name location) sim.refs := by
  intro machine machine' related
  have found := sim.lookup name related.storages
  rw [Run.exec_lookup, Run.exec_lookup]
  generalize machine.storage.lookup name = ref at found
  generalize machine'.storage.lookup name = ref' at found
  cases found with
  | none => exact .halted world trivial related
  | some linked => exact .done world (sim.le_refl world) related linked

theorem Answer.dereference {pointer pointer' : Value}
    (related : sim.storages world storage storage')
    (linked : sim.values world pointer pointer') :
    Answer sim location (sim.refs world) (storage.dereference pointer)
      (storage'.dereference pointer') := by
  cases linked with
  | pointer path linked =>
      exact (Answer.slot related linked).bind fun _ _ _ => .found ⟨rfl, linked⟩
  | primitive _ | composite _ _ | nilReference | reference _ _ | nilKeyValue | keyValue _
  | nilPointer | interfaceBox _ _ => exact .refused trivial

theorem Agree.dereference {pointer pointer' : Value}
    (linked : sim.values world pointer pointer') :
    sim.Agree world (Run.dereference location pointer) (Run.dereference location pointer')
      sim.refs :=
  .read fun related => .dereference related linked

theorem Answer.store {ref ref' : SlotRef} {value value' : Value}
    (related : sim.storages world storage storage') (linked : sim.refs world ref ref')
    (replaced : sim.values world value value') :
    Answer sim location
      (fun changed changed' => ∃ next, sim.Le world next ∧ sim.storages next changed changed')
      (storage.store ref value) (storage'.store ref' value') := by
  obtain ⟨path, here⟩ := linked
  rw [Storage.store, Storage.store]
  rcases sim.readSlot related here with
    ⟨slot, slot', read, read', slots⟩ | ⟨gone, read, isOpen | read'⟩
  · have inner := slots.2.setAtPath? ref.path replaced
    rw [read, read', ← path, Except.ok_bind, Except.ok_bind]
    generalize slot.value.setAtPath? ref.path value = whole at inner
    generalize slot'.value.setAtPath? ref.path value' = whole' at inner
    cases inner with
    | none => exact .refused trivial
    | some whole => exact .found (sim.writeSlot related here read read' whole)
  · rw [read]
    exact .left_open (isOpen location)
  · rw [read, read']
    exact .refused trivial

theorem Agree.store {ref ref' : SlotRef} {value value' : Value}
    (linked : sim.refs world ref ref') (replaced : sim.values world value value') :
    sim.Agree world (Run.store location ref value) (Run.store location ref' value')
      (fun _ _ _ => True) :=
  .write fun related => .store related linked replaced

/-! ### Blocks -/

theorem forall₂_getElem? {α β : Type} {related : α → β → Prop} {first : List α}
    {second : List β} (all : List.Forall₂ related first second) (index : Nat) :
    Option.Rel related first[index]? second[index]? := by
  induction all generalizing index with
  | nil => exact .none
  | cons head _ inductionHypothesis =>
      cases index with
      | zero => exact .some head
      | succ index => exact inductionHypothesis index

theorem Answer.element {header header' : Value} {index : Int}
    (related : sim.storages world storage storage')
    (linked : sim.values world header header') :
    Answer sim location (sim.values world) (storage.element header index)
      (storage'.element header' index) := by
  cases linked with
  | nilReference => exact .refused trivial
  | @reference len cap offset address address' within linked =>
      simp only [Storage.element, Storage.cellIndex]
      by_cases inside : 0 ≤ index ∧ index < len
      · obtain ⟨block, block', read, read', blocks⟩ := sim.readBlock related linked
        have bound : offset + index.toNat < block.cells.length := by
          have size := blocks.size
          omega
        have cells := forall₂_getElem? blocks.cells (offset + index.toNat)
        simp only [if_pos inside, Except.ok_bind, read, read']
        rw [List.getElem?_eq_getElem bound] at cells ⊢
        generalize block'.cells[offset + index.toNat]? = found at cells
        cases cells with
        | some cell => exact .found cell
      · simp only [if_neg inside]
        exact .refused trivial
  | primitive _ | composite _ _ | nilKeyValue | keyValue _ | nilPointer | pointer _ _
  | interfaceBox _ _ => exact .refused trivial

theorem Agree.element {header header' : Value} {index : Int}
    (linked : sim.values world header header') :
    sim.Agree world (Run.read location (·.element header index))
      (Run.read location (·.element header' index)) sim.values :=
  .read fun related => .element related linked

theorem forall₂_set {α β : Type} {related : α → β → Prop} {first : List α}
    {second : List β} (all : List.Forall₂ related first second) (index : Nat) {new : α}
    {new' : β} (replaced : related new new') :
    List.Forall₂ related (first.set index new) (second.set index new') := by
  induction all generalizing index with
  | nil => exact .nil
  | cons head rest inductionHypothesis =>
      cases index with
      | zero => exact .cons replaced rest
      | succ index => exact .cons head (inductionHypothesis index)

/-- Blocks whose cells are replaced by linked ones. -/
theorem writeCells {address address' : Address} {size : Nat} {block block' : Block}
    {cells cells' : List Value} (related : sim.storages world storage storage')
    (linked : (sim.links world).block address address' size)
    (blocks : (sim.links world).Blocks size block block')
    (sameSize : cells.length = block.cells.length)
    (written : List.Forall₂ (sim.values world) cells cells') :
    ∃ next, sim.Le world next ∧
      sim.storages next
        { storage with heap := storage.heap.set address (.block { block with cells }) }
        { storage' with
          heap := storage'.heap.set address' (.block { block' with cells := cells' }) } :=
  sim.writeBlock _ _ related linked ⟨sameSize.trans blocks.size, written, blocks.zero⟩

theorem Answer.setElement {header header' value value' : Value} {index : Int}
    (related : sim.storages world storage storage')
    (linked : sim.values world header header') (replaced : sim.values world value value') :
    Answer sim location
      (fun changed changed' => ∃ next, sim.Le world next ∧ sim.storages next changed changed')
      (storage.setElement header index value) (storage'.setElement header' index value') := by
  cases linked with
  | nilReference => exact .refused trivial
  | @reference len cap offset address address' within linked =>
      simp only [Storage.setElement, Storage.cellIndex]
      by_cases inside : 0 ≤ index ∧ index < len
      · obtain ⟨block, block', read, read', blocks⟩ := sim.readBlock related linked
        have bound : offset + index.toNat < block.cells.length := by
          have size := blocks.size
          omega
        have bound' : offset + index.toNat < block'.cells.length :=
          blocks.cells.length_eq ▸ bound
        simp only [if_pos inside, Except.ok_bind, read, read', if_pos bound, if_pos bound']
        exact .found (writeCells related linked blocks List.length_set
          (forall₂_set blocks.cells _ replaced))
      · simp only [if_neg inside]
        exact .refused trivial
  | primitive _ | composite _ _ | nilKeyValue | keyValue _ | nilPointer | pointer _ _
  | interfaceBox _ _ => exact .refused trivial

theorem Agree.setElement {header header' value value' : Value} {index : Int}
    (linked : sim.values world header header') (replaced : sim.values world value value') :
    sim.Agree world (Run.write location (·.setElement header index value))
      (Run.write location (·.setElement header' index value')) (fun _ _ _ => True) :=
  .write fun related => .setElement related linked replaced

theorem Agree.elementKind {header header' : Value} (linked : sim.values world header header') :
    sim.Agree world (Run.read location (·.elementKind header))
      (Run.read location (·.elementKind header')) (fun _ kind kind' => kind = kind') := by
  refine .read fun related => ?_
  cases linked with
  | nilReference => exact .found rfl
  | reference within linked =>
      obtain ⟨block, block', read, read', blocks⟩ := sim.readBlock related linked
      simp only [Storage.elementKind, Except.ok_bind, read, read']
      exact .found (congrArg some blocks.zero.kind)
  | primitive _ | composite _ _ | nilKeyValue | keyValue _ | nilPointer | pointer _ _
  | interfaceBox _ _ => exact .refused trivial

/-! ### New blocks and growth -/

theorem forall₂_replicate {α β : Type} {related : α → β → Prop} {value : α} {value' : β}
    (linked : related value value') (count : Nat) :
    List.Forall₂ related (List.replicate count value) (List.replicate count value') := by
  induction count with
  | zero => exact .nil
  | succ count inductionHypothesis => exact .cons linked inductionHypothesis

theorem forall₂_overwrite {related : Value → Value → Prop}
    {cells cells' values values' : List Value} (start : Nat) (linked : List.Forall₂ related cells cells')
    (new : List.Forall₂ related values values') :
    List.Forall₂ related (Storage.overwrite start cells values)
      (Storage.overwrite start cells' values') := by
  induction new generalizing start cells cells' with
  | nil => exact linked
  | cons head _ inductionHypothesis =>
      exact inductionHypothesis (start + 1) (forall₂_set linked start head)

theorem forall₂_padCells {related : Value → Value → Prop} {cells cells' : List Value}
    {zero zero' : Value} (linked : List.Forall₂ related cells cells') (capacity : Nat)
    (zeros : related zero zero') :
    List.Forall₂ related (Storage.padCells cells capacity zero)
      (Storage.padCells cells' capacity zero') := by
  rw [Storage.padCells, Storage.padCells, ← linked.length_eq]
  exact List.rel_append linked (forall₂_replicate zeros _)

theorem allocBlock_linked {cells cells' : List Value} {zero zero' : Value} (len : Nat)
    (related : sim.storages world storage storage')
    (linked : List.Forall₂ (sim.values world) cells cells')
    (zeros : sim.values world zero zero') :
    ∃ next, sim.Le world next ∧
      sim.storages next (storage.allocBlock cells len zero).2
        (storage'.allocBlock cells' len zero').2 ∧
      sim.values next (storage.allocBlock cells len zero).1
        (storage'.allocBlock cells' len zero').1 := by
  obtain ⟨next, grown, block, storages⟩ := sim.addBlock ⟨cells, zero⟩ ⟨cells', zero'⟩
    related ⟨rfl, linked, zeros⟩
  refine ⟨next, grown, storages, ?_⟩
  simp only [Storage.allocBlock, ← linked.length_eq]
  exact .reference (Nat.min_le_right _ _) ((Nat.zero_add _).symm ▸ block)

theorem Answer.append {header header' : Value} {values values' : List Value}
    (related : sim.storages world storage storage')
    (linked : sim.values world header header')
    (new : List.Forall₂ (sim.values world) values values') :
    Answer sim location
      (fun changed changed' => ∃ next, sim.Le world next ∧
        sim.storages next changed.2 changed'.2 ∧ sim.values next changed.1 changed'.1)
      (storage.append header values) (storage'.append header' values') := by
  cases linked with
  | nilReference =>
      cases new with
      | nil => exact .found ⟨world, sim.le_refl world, related, .nilReference⟩
      | cons first rest =>
          simp only [Storage.append, List.length_cons, ← rest.length_eq]
          exact .found (allocBlock_linked _ related
            (forall₂_padCells (.cons first rest) _ first.zeroLike) first.zeroLike)
  | @reference len cap offset address address' within linked =>
      cases new with
      | nil => exact .found ⟨world, sim.le_refl world, related, .reference within linked⟩
      | cons first rest =>
          obtain ⟨block, block', read, read', blocks⟩ := sim.readBlock related linked
          simp only [Storage.append, Except.ok_bind, read, read', List.length_cons,
            ← rest.length_eq]
          split
          next room =>
            have written := forall₂_overwrite (offset + len) blocks.cells (.cons first rest)
            obtain ⟨next, grown, storages⟩ := writeCells related linked blocks
              (Storage.length_overwrite _ _ _) written
            exact .found ⟨next, grown, storages,
              .reference room ((sim.links_mono grown).block linked)⟩
          next =>
            have visible := List.forall₂_take len (List.forall₂_drop offset blocks.cells)
            exact .found (allocBlock_linked _ related
              (forall₂_padCells (List.rel_append visible (.cons first rest)) _ blocks.zero)
              blocks.zero)
  | primitive _ | composite _ _ | nilKeyValue | keyValue _ | nilPointer | pointer _ _
  | interfaceBox _ _ =>
      cases new <;> exact .refused trivial

theorem Agree.append {header header' : Value} {values values' : List Value}
    (linked : sim.values world header header')
    (new : List.Forall₂ (sim.values world) values values') :
    sim.Agree world (Run.update location (·.append header values))
      (Run.update location (·.append header' values')) sim.values :=
  .update fun related => .append related linked new

theorem Agree.allocBlock {cells cells' : List Value} {zero zero' : Value} (len : Nat)
    (linked : List.Forall₂ (sim.values world) cells cells')
    (zeros : sim.values world zero zero') :
    sim.Agree world (Run.allocate (·.allocBlock cells len zero))
      (Run.allocate (·.allocBlock cells' len zero')) sim.values :=
  .allocate fun related _ => allocBlock_linked len related linked zeros

/-! ### Tables -/

theorem tables_insertIn (unique : (sim.links world).BiUnique) {key key' value value' : Value}
    {entries entries' : List (Value × Value)} (keys : sim.values world key key')
    (new : sim.values world value value')
    (linked : List.Forall₂ (sim.links world).Entry entries entries') :
    List.Forall₂ (sim.links world).Entry (Table.insertIn key value entries)
      (Table.insertIn key' value' entries') := by
  induction linked with
  | nil => exact .cons ⟨keys, new⟩ .nil
  | cons head rest inductionHypothesis =>
      rw [Table.insertIn, Table.insertIn, head.1.same unique keys]
      split
      · exact .cons ⟨head.1, new⟩ rest
      · exact .cons head inductionHypothesis

theorem tables_get? (unique : (sim.links world).BiUnique) {key key' : Value}
    {table table' : Table} (keys : sim.values world key key')
    (linked : (sim.links world).Tables table table') :
    Option.Rel (sim.values world) (table.get? key) (table'.get? key') := by
  obtain ⟨entries⟩ := table
  obtain ⟨entries'⟩ := table'
  unfold Links.Tables at linked
  dsimp only at linked
  induction linked with
  | nil => exact .none
  | cons head rest inductionHypothesis =>
      simp only [Table.get?, List.find?_cons, head.1.same unique keys]
      split
      · exact .some head.2
      · exact inductionHypothesis

theorem tables_ofList (unique : (sim.links world).BiUnique)
    {entries entries' : List (Value × Value)}
    (linked : List.Forall₂ (sim.links world).Entry entries entries') :
    (sim.links world).Tables (.ofList entries) (.ofList entries') := by
  have inserted : ∀ {table table' : Table}, (sim.links world).Tables table table' →
      (sim.links world).Tables
        (entries.foldl (fun table entry => table.insert entry.1 entry.2) table)
        (entries'.foldl (fun table entry => table.insert entry.1 entry.2) table') := by
    induction linked with
    | nil => exact id
    | cons head _ inductionHypothesis =>
        exact fun tables => inductionHypothesis (tables_insertIn unique head.1 head.2 tables)
  exact inserted .nil

theorem Answer.tableOf {header header' : Value}
    (related : sim.storages world storage storage')
    (linked : sim.values world header header') :
    Answer sim location
      (Option.Rel fun found found' => (sim.links world).table found.1 found'.1 ∧
        (sim.links world).Tables found.2 found'.2)
      (storage.tableOf header) (storage'.tableOf header') := by
  cases linked with
  | nilKeyValue => exact .found .none
  | keyValue linked =>
      obtain ⟨table, table', read, read', tables⟩ := sim.readTable related linked
      simp only [Storage.tableOf, read, read', Except.ok_bind]
      exact .found (.some ⟨linked, tables⟩)
  | primitive _ | composite _ _ | nilReference | reference _ _ | nilPointer | pointer _ _
  | interfaceBox _ _ => exact .refused trivial

theorem Agree.tableGet {header header' key key' : Value}
    (linked : sim.values world header header') (keys : sim.values world key key') :
    sim.Agree world (Run.read location (·.tableGet header key))
      (Run.read location (·.tableGet header' key'))
      (fun later => Option.Rel (sim.values later)) := by
  refine .read fun related => (Answer.tableOf related linked).bind fun found found' opened => ?_
  cases opened with
  | none => exact .found .none
  | some opened => exact .found (tables_get? (sim.biUnique related) keys opened.2)

theorem Agree.tableValueKind {header header' key key' : Value}
    (linked : sim.values world header header') (keys : sim.values world key key') :
    sim.Agree world (Run.read location (·.tableValueKind header key))
      (Run.read location (·.tableValueKind header' key')) (fun _ kind kind' => kind = kind') := by
  refine .read fun related => (Answer.tableOf related linked).bind fun found found' opened => ?_
  cases opened with
  | none => exact .found rfl
  | @some entry entry' opened =>
      obtain ⟨address, table⟩ := entry
      obtain ⟨address', table'⟩ := entry'
      have got := tables_get? (sim.biUnique related) keys opened.2
      have first : Option.Rel (sim.values world) (table.entries.head?.map (·.2))
          (table'.entries.head?.map (·.2)) := by
        have entries := opened.2
        unfold Links.Tables at entries
        dsimp only at entries
        generalize table.entries = all at entries
        generalize table'.entries = all' at entries
        cases entries with
        | nil => exact .none
        | cons head _ => exact .some head.2
      refine .found ?_
      simp only [Option.bind_some]
      generalize table.get? key = value at got
      generalize table'.get? key' = value' at got
      generalize table.entries.head?.map (·.2) = head at first
      generalize table'.entries.head?.map (·.2) = head' at first
      cases got with
      | some got => exact congrArg some got.kind
      | none =>
          cases first with
          | some first => exact congrArg some first.kind
          | none => rfl

theorem Agree.tableInsert {header header' key key' value value' : Value}
    (linked : sim.values world header header') (keys : sim.values world key key')
    (new : sim.values world value value') :
    sim.Agree world (Run.write location (·.tableInsert header key value))
      (Run.write location (·.tableInsert header' key' value')) (fun _ _ _ => True) := by
  refine .write fun related => (Answer.tableOf related linked).bind fun found found' opened => ?_
  cases opened with
  | none => exact .refused trivial
  | some opened =>
      exact .found (sim.writeTable _ _ related opened.1
        (tables_insertIn (sim.biUnique related) keys new opened.2))

theorem Agree.allocTable {entries entries' : List (Value × Value)}
    (linked : List.Forall₂ (sim.links world).Entry entries entries') :
    sim.Agree world (Run.allocate (·.allocTable entries))
      (Run.allocate (·.allocTable entries')) sim.values := by
  refine .allocate fun related _ => ?_
  have tables := tables_ofList (sim.biUnique related) linked
  obtain ⟨next, grown, table, storages⟩ := sim.addTable _ _ related tables
  exact ⟨next, grown, storages, .keyValue table⟩

/-! ### Lengths and windows -/

theorem Agree.headerLen {value value' : Value} (linked : sim.values world value value') :
    sim.Agree world (Run.read location (·.headerLen value))
      (Run.read location (·.headerLen value')) (fun _ len len' => len = len') := by
  refine .read fun related => ?_
  cases linked with
  | primitive value =>
      cases value with
      | string _ => exact .found rfl
      | bool _ | int _ | float _ => exact .refused trivial
  | nilReference | reference _ _ | nilKeyValue => exact .found rfl
  | keyValue linked =>
      obtain ⟨table, table', read, read', tables⟩ := sim.readTable related linked
      simp only [Storage.headerLen, read, read', Except.ok_bind]
      exact .found tables.length_eq
  | composite _ _ | nilPointer | pointer _ _ | interfaceBox _ _ => exact .refused trivial

theorem Agree.headerCap {value value' : Value} (linked : sim.values world value value') :
    sim.Agree world (Run.read location fun _ => Storage.headerCap value)
      (Run.read location fun _ => Storage.headerCap value') (fun _ cap cap' => cap = cap') := by
  refine .read fun _ => ?_
  cases linked with
  | nilReference | reference _ _ => exact .found rfl
  | primitive _ | composite _ _ | nilKeyValue | keyValue _ | nilPointer | pointer _ _
  | interfaceBox _ _ => exact .refused trivial

theorem Agree.reslice {header header' : Value} (low high : Nat)
    (linked : sim.values world header header') :
    sim.Agree world (Run.read location fun _ => Storage.reslice header low high)
      (Run.read location fun _ => Storage.reslice header' low high) sim.values := by
  refine .read fun _ => ?_
  cases linked with
  | nilReference =>
      simp only [Storage.reslice]
      split
      next inside =>
        obtain ⟨rfl, rfl⟩ : low = 0 ∧ high = 0 := by omega
        exact .found .nilReference
      next => exact .refused trivial
  | @reference len cap offset _ _ within linked =>
      simp only [Storage.reslice]
      split
      next inside =>
        have window : offset + low + (cap - low) = offset + cap := by omega
        exact .found (.reference (by omega) (window ▸ linked))
      next => exact .refused trivial
  | primitive _ | composite _ _ | nilKeyValue | keyValue _ | nilPointer | pointer _ _
  | interfaceBox _ _ => exact .refused trivial

end Simulation

end ReferenceSemantics

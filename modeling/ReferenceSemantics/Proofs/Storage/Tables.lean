import ReferenceSemantics.Proofs.Storage.Lenses
import ReferenceSemantics.Proofs.Value.Sameness

set_option autoImplicit false

/-!
Tables as the insertions made into them.

A table holds one entry for every key that was inserted, in the order in which the keys were first
inserted, and answers with the value that was inserted last. Nothing else that happens to storage
changes a table, and an insertion changes nothing but the entry for its key.
-/

namespace ReferenceSemantics

/-- One more element at the end stays, unless it is like one that is there. -/
theorem List.eraseDupsBy_concat {α : Type} (alike : α → α → Bool) (elements : List α) (last : α) :
    (elements ++ [last]).eraseDupsBy alike =
      if (elements.eraseDupsBy alike).any (alike last) then elements.eraseDupsBy alike
      else elements.eraseDupsBy alike ++ [last] := by
  have loop : ∀ found, List.eraseDupsBy.loop alike (elements ++ [last]) found =
      if (List.eraseDupsBy.loop alike elements found).any (alike last)
      then List.eraseDupsBy.loop alike elements found
      else List.eraseDupsBy.loop alike elements found ++ [last] := by
    induction elements with
    | nil =>
        intro found
        cases seen : found.any (alike last) <;> simp [List.eraseDupsBy.loop, seen]
    | cons element elements inductionHypothesis =>
        intro found
        rw [List.cons_append, List.eraseDupsBy.loop, List.eraseDupsBy.loop]
        cases found.any (alike element) <;> exact inductionHypothesis _
  exact loop []

namespace Table

/-- The keys, in the order of the entries. -/
def keys (table : Table) : List Value := table.entries.map (·.1)

/-- A table has one entry for the insertions under equal keys. It keeps the first of the keys, at
the place where it was inserted, and the last of the values. -/
structure Holds (table : Table) (inserted : List (Value × Value)) : Prop where
  keys : table.keys = (inserted.map (·.1)).eraseDupsBy Value.same
  distinct : table.keys.Pairwise fun first second => first.same second = false
  answers : ∀ key, table.get? key = (inserted.findRev? (·.1.same key)).map (·.2)

variable {table : Table} {key value : Value} {inserted : List (Value × Value)}

/-! ### Insertions -/

theorem get?_insert (table : Table) (key value other : Value) :
    (table.insert key value).get? other =
      if key.same other then some value else table.get? other := by
  obtain ⟨entries⟩ := table
  simp only [insert, get?]
  induction entries with
  | nil => cases equal : key.same other <;> simp [insertIn, equal]
  | cons entry entries inductionHypothesis =>
      obtain ⟨first, old⟩ := entry
      cases here : first.same key with
      | true =>
          have alike := Value.same_congr here other
          cases equal : key.same other <;> simp [insertIn, here, alike, equal]
      | false =>
          rw [insertIn, if_neg (by simp [here]), List.find?_cons, List.find?_cons]
          cases found : first.same other with
          | false => exact inductionHypothesis
          | true =>
              -- no key equals both the one that is inserted and the one that is found
              have apart : key.same other = false := by
                rw [Value.same_comm, ← Value.same_congr found, here]
              simp [apart]

theorem map_insertIn (key value : Value) (entries : List (Value × Value)) :
    (insertIn key value entries).map (·.1) =
      if (entries.map (·.1)).any key.same then entries.map (·.1)
      else entries.map (·.1) ++ [key] := by
  induction entries with
  | nil => rfl
  | cons entry entries inductionHypothesis =>
      obtain ⟨first, old⟩ := entry
      rw [insertIn, Value.same_comm, List.map_cons, List.any_cons]
      cases here : key.same first with
      | true => rfl
      | false =>
          rw [if_neg Bool.false_ne_true, List.map_cons, inductionHypothesis, Bool.false_or]
          split <;> rfl

theorem keys_insert (table : Table) (key value : Value) :
    (table.insert key value).keys =
      if table.keys.any key.same then table.keys else table.keys ++ [key] :=
  map_insertIn key value table.entries

theorem Holds.insert (holds : table.Holds inserted) (key value : Value) :
    (table.insert key value).Holds (inserted ++ [(key, value)]) := by
  refine ⟨?_, ?_, fun other => ?_⟩
  · rw [keys_insert, List.map_append, List.map_cons, List.map_nil, List.eraseDupsBy_concat,
      ← holds.keys]
  · rw [keys_insert]
    split
    next => exact holds.distinct
    next fresh =>
      refine List.pairwise_append.mpr ⟨holds.distinct, List.pairwise_singleton _ _, ?_⟩
      intro first member last isLast
      rw [List.mem_singleton.mp isLast, Value.same_comm]
      exact Bool.eq_false_iff.mpr fun equal => fresh (List.any_eq_true.mpr ⟨first, member, equal⟩)
  · rw [get?_insert, holds.answers, List.findRev?_eq_find?_reverse, List.findRev?_eq_find?_reverse,
      List.reverse_concat, List.find?_cons]
    cases key.same other <;> rfl

theorem ofList_concat (inserted : List (Value × Value)) (key value : Value) :
    ofList (inserted ++ [(key, value)]) = (ofList inserted).insert key value :=
  List.foldl_append

theorem Holds.foldl (holds : table.Holds inserted) (entries : List (Value × Value)) :
    (entries.foldl (fun table entry => table.insert entry.1 entry.2) table).Holds
      (inserted ++ entries) := by
  induction entries generalizing table inserted with
  | nil => exact (List.append_nil inserted).symm ▸ holds
  | cons entry entries inductionHypothesis =>
      rw [List.append_cons]
      exact inductionHypothesis (holds.insert entry.1 entry.2)

theorem holds_ofList (inserted : List (Value × Value)) : (ofList inserted).Holds inserted := by
  have holds : empty.Holds [] := ⟨rfl, .nil, fun _ => rfl⟩
  exact holds.foldl inserted

end Table

namespace Storage

/-- What an operation inserts into the table at an address. -/
def Operation.insertedAt (address : Address) : Operation → Option (Value × Value)
  | .tableInsert (.keyValueHeader (some target)) key value =>
      if target = address then some (key, value) else none
  | _ => none

/-- What an insertion into the table at an address changes and what it leaves. -/
structure Inserted (storage changed : Storage) (address : Address) (key value : Value) : Prop where
  answers : ∀ other, changed.tableGet (.keyValueHeader (some address)) other =
    if key.same other then .ok (some value)
    else storage.tableGet (.keyValueHeader (some address)) other
  readBack : key.hasNaN = false →
    changed.tableGet (.keyValueHeader (some address)) key = .ok (some value)
  /-- Other headers lead to what they led to before. -/
  tables : ∀ header, header ≠ .keyValueHeader (some address) →
    changed.headerLen header = storage.headerLen header ∧
      ∀ other, changed.tableGet header other = storage.tableGet header other
  slots : ∀ other, changed.slot other = storage.slot other
  loads : ∀ ref, changed.load ref = storage.load ref
  blocks : ∀ other, changed.block other = storage.block other
  elsewhere : storage.DiffersAt changed address

/-- Every table is still there and has the entries that it had. -/
def KeepsTables (storage changed : Storage) : Prop :=
  ∀ address table, storage.table address = .ok table → changed.table address = .ok table

variable {storage changed : Storage} {address : Address} {table : Table} {key value : Value}

/-! ### Operations that keep tables -/

namespace KeepsTables

theorem of_heap (same : ∀ address, changed.heap.get? address = storage.heap.get? address) :
    storage.KeepsTables changed :=
  fun _ _ found => table_eq_ok_iff.mpr ((same _).trans (table_eq_ok_iff.mp found))

theorem refl (storage : Storage) : storage.KeepsTables storage := fun _ _ => id

theorem trans {last : Storage} (before : storage.KeepsTables changed)
    (after : changed.KeepsTables last) : storage.KeepsTables last :=
  fun address table found => after address table (before address table found)

theorem heapPush (storage : Storage) (object : HeapObject) :
    storage.KeepsTables { storage with heap := storage.heap.push object } :=
  fun _ _ found =>
    table_eq_ok_iff.mpr (Heap.get?_push_of_get? (table_eq_ok_iff.mp found) object)

/-- A block in the place of a block. -/
theorem heapSet {block : Block} (read : storage.block address = .ok block) (new : HeapObject) :
    storage.KeepsTables { storage with heap := storage.heap.set address new } := by
  intro other table found
  have there := table_eq_ok_iff.mp found
  have present := block_eq_ok_iff.mp read
  have apart : other ≠ address := by
    rintro rfl
    rw [present] at there
    cases there
  exact table_eq_ok_iff.mpr ((Heap.get?_set new other present).trans ((if_neg apart).trans there))

theorem setSlot {slot : Slot} (read : storage.slot address = .ok slot) (new : Slot) :
    storage.KeepsTables (storage.setSlot address new) := by
  intro other table found
  have there := table_eq_ok_iff.mp found
  rcases get?_setSlot read new other with same | ⟨-, before, -⟩
  · exact table_eq_ok_iff.mpr (same.trans there)
  · rw [before] at there
    cases there

theorem modifyCurrent (storage : Storage) (f : Frame → Frame) :
    storage.KeepsTables (storage.modifyCurrent f) :=
  of_heap fun address => by rw [heap_modifyCurrent]

theorem allocate (storage : Storage) (name : String) (kind : Kind) (site : Option SiteId)
    (placement : Placement) (value : Value) :
    storage.KeepsTables (storage.allocate name kind site placement value).2 := by
  cases placement with
  | stack => exact modifyCurrent storage _
  | heap => exact heapPush storage _

/-- An operation that gives a storage or fails. -/
theorem getD {result : Except StorageError Storage}
    (keeps : ∀ changed, result = .ok changed → storage.KeepsTables changed) :
    storage.KeepsTables (result.toOption.getD storage) := by
  cases result with
  | error reason => exact refl storage
  | ok changed => exact keeps changed rfl

theorem append {header moved : Value} {values : List Value}
    (appended : storage.append header values = .ok (moved, changed)) :
    storage.KeepsTables changed := by
  cases append_eq_ok appended with
  | nothing len cap offset block => exact refl storage
  | inPlace len cap offset address block values read room => exact heapSet read _
  | grown len cap offset address block values cells read full filled => exact heapPush storage _
  | first len cap offset value values cells filled => exact heapPush storage _

end KeepsTables

theorem keepsTables_perform (storage : Storage) {operation : Operation}
    (kept : operation ≠ .discard)
    (noInsert : ∀ header key value, operation ≠ .tableInsert header key value) :
    storage.KeepsTables (storage.perform operation).2 := by
  cases operation with
  | pushFrame function callSite => exact .of_heap fun _ => rfl
  | popFrame => exact .of_heap fun address => by rw [perform, (heap_popFrame storage).1]
  | allocate name kind site placement value =>
      exact .allocate storage name kind site placement value
  | declare name kind site placement value =>
      let allocated := storage.allocate name kind site placement value
      have bound : allocated.2.KeepsTables
          (allocated.2.modifyCurrent (·.bind name allocated.1.address)) := .modifyCurrent _ _
      exact (KeepsTables.allocate storage name kind site placement value).trans bound
  | amend address name kind site value =>
      simp only [perform]
      split
      next slot read => exact .setSlot read _
      next => exact .refl storage
  | store ref value =>
      refine .getD fun changed stored => ?_
      obtain ⟨slot, whole, read, -, rfl⟩ := store_eq_ok.mp stored
      exact .setSlot read _
  | setElement header index value =>
      refine .getD fun changed done => ?_
      obtain ⟨address, cell, block, -, read, -, rfl⟩ := setElement_eq_ok.mp done
      exact .heapSet read _
  | append header values =>
      simp only [perform]
      split
      next moved changed appended => exact .append appended
      next => exact .refl storage
  | reslice header low high => exact .refl storage
  | allocBlock cells len zero => exact .heapPush storage _
  | allocTable entries => exact .heapPush storage _
  | tableInsert header key value => exact absurd rfl (noInsert header key value)
  | sweep => exact .of_heap fun address => Heap.get?_markUnreachable _ _ _
  | discard => exact absurd rfl kept

/-! ### Insertions through headers -/

theorem table_heapSet (read : storage.table address = .ok table) (new : Table) (other : Address) :
    ({ storage with heap := storage.heap.set address (.table new) } : Storage).table other =
      if other = address then .ok new else storage.table other := by
  have found := Heap.get?_set (.table new) other (table_eq_ok_iff.mp read)
  by_cases same : other = address
  · rw [if_pos same]
    exact table_eq_ok_iff.mpr (found.trans (if_pos same))
  · rw [if_neg same, Storage.table, Storage.table, found, if_neg same]

theorem tableGet_of_table (read : storage.table address = .ok table) (key : Value) :
    storage.tableGet (.keyValueHeader (some address)) key = .ok (table.get? key) := by
  rw [tableGet, tableOf, read]
  rfl

theorem tableInsert_of_table (read : storage.table address = .ok table) (key value : Value) :
    storage.tableInsert (.keyValueHeader (some address)) key value =
      .ok { storage with heap := storage.heap.set address (.table (table.insert key value)) } :=
  tableInsert_eq_ok.mpr ⟨address, table, rfl, read, rfl⟩

theorem headerLen_of_table (read : storage.table address = .ok table) :
    storage.headerLen (.keyValueHeader (some address)) = .ok table.entries.length := by
  rw [headerLen, read]
  rfl

/-- A table in the place of a table is no slot either. -/
theorem slot_heapSet (read : storage.table address = .ok table) (new : Table) (other : Address) :
    ({ storage with heap := storage.heap.set address (.table new) } : Storage).slot other =
      storage.slot other := by
  have there := table_eq_ok_iff.mp read
  have onStack : ({ storage with heap := storage.heap.set address (.table new) } :
    Storage).stackSlot? other = storage.stackSlot? other := rfl
  rw [slot_eq, slot_eq, objectAt?, objectAt?, onStack, Heap.get?_set (.table new) other there]
  by_cases same : other = address
  · rw [if_pos same, same, there]
    cases storage.stackSlot? address <;> rfl
  · rw [if_neg same]

theorem block_tableSet (read : storage.table address = .ok table) (new : Table) (other : Address) :
    ({ storage with heap := storage.heap.set address (.table new) } : Storage).block other =
      storage.block other := by
  have there := table_eq_ok_iff.mp read
  rw [Storage.block, Storage.block, Heap.get?_set (.table new) other there]
  by_cases same : other = address
  · rw [if_pos same, same, there]
  · rw [if_neg same]

/-- What is done through a header does not depend on other tables. -/
theorem tableOf_congr {header : Value}
    (same : ∀ target, header = .keyValueHeader (some target) →
      changed.table target = storage.table target) :
    changed.tableOf header = storage.tableOf header := by
  match header with
  | .keyValueHeader (some target) => rw [tableOf, tableOf, same target rfl]
  | .keyValueHeader none => rfl
  | .primitive _ | .composite _ _ | .referenceHeader _ _ _ _ | .pointer _
  | .interfaceBox _ _ => rfl

theorem headerLen_congr {header : Value}
    (same : ∀ target, header = .keyValueHeader (some target) →
      changed.table target = storage.table target) :
    changed.headerLen header = storage.headerLen header := by
  match header with
  | .keyValueHeader (some target) => rw [headerLen, headerLen, same target rfl]
  | .keyValueHeader none => rfl
  | .primitive (.string _) => rfl
  | .primitive (.bool _) | .primitive (.int _) | .primitive (.float _) => rfl
  | .composite _ _ | .referenceHeader _ _ _ _ | .pointer _ | .interfaceBox _ _ => rfl

theorem inserted_of_tableInsert (read : storage.table address = .ok table) (key value : Value) :
    ∃ changed, storage.tableInsert (.keyValueHeader (some address)) key value = .ok changed ∧
      storage.Inserted changed address key value := by
  let changed : Storage :=
    { storage with heap := storage.heap.set address (.table (table.insert key value)) }
  have after (other) : changed.table other = _ := table_heapSet read _ other
  have answers := tableGet_of_table ((after address).trans (if_pos rfl))
  refine ⟨changed, tableInsert_of_table read key value, fun other => ?_, fun number => ?_,
    fun header other => ?_, ?_, fun ref => ?_, ?_, ?_⟩
  · rw [answers, Table.get?_insert, tableGet_of_table read]
    split <;> rfl
  · rw [answers, Table.get?_insert, if_pos (by rw [Value.same_self, number]; rfl)]
  · have same : ∀ target, header = .keyValueHeader (some target) →
        changed.table target = storage.table target := by
      rintro target rfl
      exact (after target).trans (if_neg fun here => other (by rw [here]))
    exact ⟨headerLen_congr same, fun key => by rw [tableGet, tableGet, tableOf_congr same]⟩
  · exact slot_heapSet read _
  · exact load_congr (slot_heapSet read _ _)
  · exact block_tableSet read _
  · exact differsAt_heapSet ..

theorem table_tableInsert {inserted : List (Value × Value)}
    (found : storage.table address = .ok (.ofList inserted)) (header key value : Value) :
    (storage.perform (.tableInsert header key value)).2.table address =
      .ok (.ofList (inserted ++
        ((Operation.tableInsert header key value).insertedAt address).toList)) := by
  cases done : storage.tableInsert header key value with
  | ok changed =>
      obtain ⟨target, table, rfl, read, rfl⟩ := tableInsert_eq_ok.mp done
      rw [perform, done, Operation.insertedAt]
      refine (table_heapSet read _ address).trans ?_
      by_cases same : target = address
      · subst same
        obtain rfl : .ofList inserted = table := Except.ok.inj (found.symm.trans read)
        rw [if_pos rfl, if_pos rfl, Option.toList_some, Table.ofList_concat]
      · rw [if_neg (Ne.symm same), if_neg same, Option.toList_none, List.append_nil, found]
  | error reason =>
      -- an insert into the table that was found does not fail
      have elsewhere : (Operation.tableInsert header key value).insertedAt address = none := by
        unfold Operation.insertedAt
        split
        next target key value same =>
          cases same
          refine if_neg ?_
          rintro rfl
          rw [tableInsert_of_table found] at done
          cases done
        next => rfl
      rw [perform, done, elsewhere, Option.toList_none, List.append_nil]
      exact found

/-- A table takes up what an operation inserts into it. -/
theorem table_perform {inserted : List (Value × Value)}
    (found : storage.table address = .ok (.ofList inserted)) {operation : Operation}
    (kept : operation ≠ .discard) :
    (storage.perform operation).2.table address =
      .ok (.ofList (inserted ++ (operation.insertedAt address).toList)) := by
  by_cases inserts : ∃ header key value, operation = .tableInsert header key value
  · obtain ⟨header, key, value, rfl⟩ := inserts
    exact table_tableInsert found header key value
  · have noInsert : ∀ header key value, operation ≠ .tableInsert header key value :=
      fun header key value same => inserts ⟨header, key, value, same⟩
    have nothing : operation.insertedAt address = none := by
      unfold Operation.insertedAt
      split
      next same => exact absurd rfl (noInsert _ _ _)
      next => rfl
    rw [nothing, Option.toList_none, List.append_nil]
    exact storage.keepsTables_perform kept noInsert address _ found

theorem table_after {inserted : List (Value × Value)}
    (found : storage.table address = .ok (.ofList inserted)) {history : List Operation}
    (kept : .discard ∉ history) :
    (storage.after history).table address =
      .ok (.ofList (inserted ++ history.filterMap (·.insertedAt address))) := by
  induction history generalizing storage inserted with
  | nil => rw [List.filterMap_nil, List.append_nil]; exact found
  | cons operation history inductionHypothesis =>
      have here := List.ne_of_not_mem_cons kept
      have later := List.not_mem_of_not_mem_cons kept
      rw [after, inductionHypothesis (table_perform found (Ne.symm here)) later,
        List.append_assoc]
      cases inserts : operation.insertedAt address <;> simp [inserts]

/-- A table is what was inserted into it, through whatever copies of its header and whatever else
happens in between: its first entries, and then the insertions of the history. -/
theorem table_of_insertions (storage : Storage) (entries : List (Value × Value))
    (history : List Operation) (kept : .discard ∉ history) :
    let address := storage.heap.nextAddress
    let header : Value := .keyValueHeader (some address)
    let inserted := entries ++ history.filterMap (·.insertedAt address)
    let last := (storage.allocTable entries).2.after history
    (storage.allocTable entries).1 = header ∧
      (∃ table, last.table address = .ok table ∧ table.Holds inserted) ∧
      (∀ key, last.tableGet header key =
        .ok ((inserted.findRev? (·.1.same key)).map (·.2))) ∧
      last.headerLen header = .ok ((inserted.map (·.1)).eraseDupsBy Value.same).length ∧
      ∀ key value, ∃ changed, last.tableInsert header key value = .ok changed ∧
        last.Inserted changed address key value := by
  intro address header inserted last
  have made : (storage.allocTable entries).2.table address = .ok (.ofList entries) :=
    table_eq_ok_iff.mpr ((Heap.get?_push _ _ _).trans (if_pos rfl))
  have read : last.table address = .ok (.ofList inserted) := table_after made kept
  have holds := Table.holds_ofList inserted
  refine ⟨rfl, ⟨_, read, holds⟩, fun key => ?_, ?_, inserted_of_tableInsert read⟩
  · exact (tableGet_of_table read key).trans (congrArg Except.ok (holds.answers key))
  · rw [show last.headerLen header = _ from headerLen_of_table read, ← holds.keys, Table.keys,
      List.length_map]

/-- A key that is there twice counts once and keeps its place, and the last value is the answer. -/
theorem table_of_insertions_repeated :
    let header : Value := .keyValueHeader (some heapStart)
    let made := empty.allocTable [(.int 7, .int 1), (.int 8, .int 2), (.int 7, .int 3)]
    let last := made.2.after
      [.pushFrame "f" none, .tableInsert header (.int 9) (.int 4), .popFrame,
        .tableInsert header (.int 8) (.int 5)]
    last.tableGet header (.int 7) = .ok (some (.int 3)) ∧
      last.tableGet header (.int 8) = .ok (some (.int 5)) ∧ last.headerLen header = .ok 3 := by
  intro header made last
  have insertions := table_of_insertions empty
    [(.int 7, .int 1), (.int 8, .int 2), (.int 7, .int 3)]
    [.pushFrame "f" none, .tableInsert header (.int 9) (.int 4), .popFrame,
      .tableInsert header (.int 8) (.int 5)] (by simp)
  obtain ⟨-, -, answers, length, -⟩ := insertions
  exact ⟨answers (.int 7), answers (.int 8), length⟩

end Storage

end ReferenceSemantics

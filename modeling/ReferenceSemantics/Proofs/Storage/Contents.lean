import ReferenceSemantics.Proofs.Storage.Objects

set_option autoImplicit false

/-!
What blocks and tables hold after a write: what they held before, and what was written.
-/

namespace ReferenceSemantics.Storage

variable {value held key : Value}

theorem mem_overwrite {start : Nat} {cells values : List Value}
    (member : held ∈ overwrite start cells values) : held ∈ cells ∨ held ∈ values := by
  induction values generalizing start cells with
  | nil => exact .inl member
  | cons new values inductionHypothesis =>
      rw [overwrite] at member
      rcases inductionHypothesis member with old | later
      · rcases List.mem_or_eq_of_mem_set old with older | rfl
        · exact .inl older
        · exact .inr (List.mem_cons_self ..)
      · exact .inr (List.mem_cons_of_mem _ later)

/-- Cells that are all there hold the values afterwards, and the other cells what they held. -/
theorem getElem?_overwrite {start : Nat} {cells values : List Value}
    (bound : start + values.length ≤ cells.length) (place : Nat) :
    (overwrite start cells values)[place]? =
      if start ≤ place ∧ place < start + values.length then values[place - start]?
      else cells[place]? := by
  induction values generalizing start cells with
  | nil => rw [overwrite, List.length_nil, if_neg (by omega)]
  | cons value values inductionHypothesis =>
      rw [List.length_cons] at bound ⊢
      rw [overwrite, inductionHypothesis (by rw [List.length_set]; omega)]
      rcases Nat.lt_trichotomy place start with before | rfl | behind
      · rw [if_neg (by omega), if_neg (by omega), List.getElem?_set_ne (by omega)]
      · rw [if_neg (by omega), if_pos (by omega), Nat.sub_self,
          List.getElem?_set_self (by omega), List.getElem?_cons_zero]
      · have next : place - start = place - (start + 1) + 1 := by omega
        have same : (start + 1 ≤ place ∧ place < start + 1 + values.length) =
            (start ≤ place ∧ place < start + (values.length + 1)) := propext (by omega)
        rw [next, List.getElem?_cons_succ, List.getElem?_set_ne (by omega)]
        simp only [same]

theorem mem_padCells {cells : List Value} {capacity : Nat} {zero : Value}
    (member : held ∈ padCells cells capacity zero) : held ∈ cells ∨ held = zero := by
  rcases List.mem_append.mp member with old | spare
  · exact .inl old
  · exact .inr (List.eq_of_mem_replicate spare)

theorem mem_contents_insert {table : Table}
    (member : held ∈ (HeapObject.table (table.insert key value)).contents) :
    held ∈ (HeapObject.table table).contents ∨ held = key ∨ held = value := by
  obtain ⟨entries⟩ := table
  simp only [HeapObject.contents, Table.insert] at member ⊢
  induction entries with
  | nil => simpa [Table.insertIn] using member
  | cons entry entries inductionHypothesis =>
      obtain ⟨other, old⟩ := entry
      rw [Table.insertIn] at member
      split at member
      · simp only [List.flatMap_cons, List.cons_append, List.nil_append, List.mem_cons] at member ⊢
        rcases member with rfl | rfl | later
        · exact .inl (.inl rfl)
        · exact .inr (.inr rfl)
        · exact .inl (.inr (.inr later))
      · simp only [List.flatMap_cons, List.cons_append, List.nil_append, List.mem_cons] at member ⊢
        rcases member with rfl | rfl | later
        · exact .inl (.inl rfl)
        · exact .inl (.inr (.inl rfl))
        · exact (inductionHypothesis later).imp_left fun inRest => .inr (.inr inRest)

theorem mem_contents_ofList {entries : List (Value × Value)}
    (member : held ∈ (HeapObject.table (.ofList entries)).contents) :
    ∃ entry ∈ entries, held = entry.1 ∨ held = entry.2 := by
  have folded : ∀ table : Table,
      held ∈ (HeapObject.table
        (entries.foldl (fun table entry => table.insert entry.1 entry.2) table)).contents →
      held ∈ (HeapObject.table table).contents ∨
        ∃ entry ∈ entries, held = entry.1 ∨ held = entry.2 := by
    clear member
    induction entries with
    | nil => exact fun _ member => .inl member
    | cons entry entries inductionHypothesis =>
        intro table member
        rcases inductionHypothesis _ member with inserted | ⟨other, later, same⟩
        · exact (mem_contents_insert inserted).imp_right fun same =>
            ⟨entry, List.mem_cons_self .., same⟩
        · exact .inr ⟨other, List.mem_cons_of_mem _ later, same⟩
  exact (folded .empty member).resolve_left nofun

end ReferenceSemantics.Storage

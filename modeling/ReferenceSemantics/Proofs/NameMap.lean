import Mathlib.Data.List.Nodup
import ReferenceSemantics.NameMap

set_option autoImplicit false

/-!
Looking up names in finite maps.
-/

namespace ReferenceSemantics.NameMap

variable {α : Type} {name other : String} {value : α}

theorem lookup_entry (entries : List (String × α)) :
    ((name, value) :: entries).lookup other =
      if other = name then some value else entries.lookup other := by
  rw [List.lookup_cons]
  by_cases same : other = name
  · simp [same]
  · rw [beq_eq_false_iff_ne.mpr same, if_neg same]

theorem lookup_place {entries : List (String × α)} :
    (place name value entries).lookup other =
      if other = name then some value else entries.lookup other := by
  induction entries with
  | nil => exact lookup_entry []
  | cons head entries inductionHypothesis =>
      obtain ⟨present, old⟩ := head
      unfold place
      split
      · exact lookup_entry _
      · split
        next same =>
          subst same
          rw [lookup_entry, lookup_entry]
          by_cases here : other = name <;> simp only [here, if_true, if_false]
        next different =>
          rw [lookup_entry, lookup_entry, inductionHypothesis]
          by_cases here : other = present
          · subst here
            simp only [if_true, if_neg (Ne.symm different)]
          · simp only [if_neg here]

theorem get?_insert (map : NameMap α) :
    (map.insert name value).get? other = if other = name then some value else map.get? other :=
  lookup_place

/-- Entries with names of their own replace what was there under their names. -/
theorem get?_insertAll {entries : List (String × α)} (distinct : (entries.map (·.1)).Nodup)
    (map : NameMap α) :
    (map.insertAll entries).get? name = (entries.lookup name).or (map.get? name) := by
  induction entries generalizing map with
  | nil => rfl
  | cons entry entries inductionHypothesis =>
      obtain ⟨first, value⟩ := entry
      obtain ⟨fresh, distinct⟩ := List.nodup_cons.mp distinct
      rw [insertAll, List.foldl_cons]
      refine (inductionHypothesis distinct (map.insert first value)).trans ?_
      rw [get?_insert, lookup_entry]
      by_cases here : name = first
      · have absent : entries.lookup name = none := by
          refine List.lookup_eq_none_iff.mpr fun entry later => bne_iff_ne.mpr fun same => fresh ?_
          exact List.mem_map.mpr ⟨entry, later, same.symm.trans here⟩
        rw [absent, if_pos here, if_pos here]
        rfl
      · rw [if_neg here, if_neg here]

/-- A map that gives every name of a list the value of a function. -/
theorem get?_ofList_map (f : String → α) (names : List String) :
    (ofList (names.map fun name => (name, f name))).get? name =
      if name ∈ names then some (f name) else none := by
  have inserted : ∀ map : NameMap α,
      (map.insertAll (names.map fun name => (name, f name))).get? name =
        if name ∈ names then some (f name) else map.get? name := by
    induction names with
    | nil => exact fun _ => rfl
    | cons first names inductionHypothesis =>
        intro map
        rw [List.map_cons, insertAll, List.foldl_cons]
        refine (inductionHypothesis _).trans ?_
        rw [get?_insert]
        by_cases later : name ∈ names
        · simp [later]
        · by_cases here : name = first <;> simp [later, here]
  exact inserted .empty

/-! ### A map is what it gives for each name -/

theorem mem_entries {map : NameMap α} :
    (name, value) ∈ map.entries ↔ map.get? name = some value := by
  rw [get?, List.lookup_eq_some_iff]
  constructor
  · intro member
    obtain ⟨before, after, split⟩ := List.append_of_mem member
    refine ⟨before, after, split, fun entry earlier => ?_⟩
    have ordered := split ▸ map.ordered
    have below := (List.pairwise_append.mp ordered).2.2 entry earlier _ (List.mem_cons_self ..)
    exact bne_iff_ne.mpr fun same => String.lt_irrefl _ (same ▸ below)
  · rintro ⟨before, after, split, -⟩
    rw [split]
    exact List.mem_append_right _ (List.mem_cons_self ..)

theorem keys_nodup (map : NameMap α) : map.keys.Nodup :=
  List.pairwise_map.mpr (map.ordered.imp String.ne_of_lt)

theorem mem_keys {map : NameMap α} : name ∈ map.keys ↔ (map.get? name).isSome := by
  rw [keys, List.mem_map]
  constructor
  · rintro ⟨⟨_, value⟩, member, rfl⟩
    exact Option.isSome_iff_exists.mpr ⟨value, mem_entries.mp member⟩
  · intro found
    obtain ⟨value, here⟩ := Option.isSome_iff_exists.mp found
    exact ⟨_, mem_entries.mpr here, rfl⟩

theorem eq_of_get? {first second : NameMap α}
    (same : ∀ name, first.get? name = second.get? name) : first = second := by
  have permuted : first.entries.Perm second.entries := by
    refine (List.perm_ext_iff_of_nodup first.keys_nodup.of_map second.keys_nodup.of_map).mpr ?_
    rintro ⟨name, value⟩
    rw [mem_entries, mem_entries, same]
  refine ext (permuted.eq_of_pairwise ?_ first.ordered second.ordered)
  exact fun entry other _ _ below above => absurd (String.lt_trans below above) (String.lt_irrefl _)

/-- A name after all others is put at the end. -/
theorem place_above {entries : List (String × α)} (above : ∀ entry ∈ entries, entry.1 < name) :
    place name value entries = entries ++ [(name, value)] := by
  induction entries with
  | nil => rfl
  | cons first entries inductionHypothesis =>
      obtain ⟨other, old⟩ := first
      obtain ⟨here, later⟩ := List.forall_mem_cons.mp above
      have after : ¬ name < other := fun below =>
        String.lt_irrefl _ (String.lt_trans below here)
      rw [place, if_neg after, if_neg (String.ne_of_lt here).symm, inductionHypothesis later,
        List.cons_append]

theorem entries_insertAll {later : List (String × α)} :
    ∀ {map : NameMap α}, (map.entries ++ later).Pairwise (fun a b => a.1 < b.1) →
      (map.insertAll later).entries = map.entries ++ later := by
  induction later with
  | nil => exact fun _ => (List.append_nil _).symm
  | cons entry later inductionHypothesis =>
      intro map ordered
      have above : ∀ other ∈ map.entries, other.1 < entry.1 := fun other member =>
        (List.pairwise_append.mp ordered).2.2 other member entry (List.mem_cons_self ..)
      have inserted : (map.insert entry.1 entry.2).entries = map.entries ++ [entry] :=
        place_above above
      rw [← List.singleton_append, ← List.append_assoc, ← inserted] at ordered ⊢
      exact inductionHypothesis ordered

/-- A map is the one of its entries. -/
theorem ofList_entries (map : NameMap α) : ofList map.entries = map :=
  ext (entries_insertAll map.ordered)

theorem keys_eq {β : Type} {first : NameMap α} {second : NameMap β}
    (same : ∀ name, (first.get? name).isSome ↔ (second.get? name).isSome) :
    first.keys = second.keys := by
  have permuted : first.keys.Perm second.keys := by
    refine (List.perm_ext_iff_of_nodup first.keys_nodup second.keys_nodup).mpr fun name => ?_
    rw [mem_keys, mem_keys, same]
  refine permuted.eq_of_pairwise ?_ (List.pairwise_map.mpr first.ordered)
    (List.pairwise_map.mpr second.ordered)
  exact fun name other _ _ below above => absurd (String.lt_trans below above) (String.lt_irrefl _)

theorem get?_mapValues {β : Type} (f : String → α → β) (map : NameMap α) :
    (map.mapValues f).get? name = (map.get? name).map (f name) := by
  rw [get?, get?, mapValues]
  dsimp only
  induction map.entries with
  | nil => rfl
  | cons entry entries inductionHypothesis =>
      obtain ⟨first, value⟩ := entry
      rw [List.map_cons, lookup_entry, lookup_entry, inductionHypothesis]
      by_cases same : name = first
      · subst same
        simp only [if_true, Option.map_some]
      · simp only [if_neg same]

end ReferenceSemantics.NameMap

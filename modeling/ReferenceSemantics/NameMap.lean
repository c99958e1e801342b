set_option autoImplicit false

/-!
Finite maps from names, listed in the order of the names. Two maps with the same entries are
equal, and inserting under a name that is present replaces its value.
-/

namespace ReferenceSemantics

structure NameMap (α : Type) where
  entries : List (String × α)
  ordered : entries.Pairwise (fun a b => a.1 < b.1)

namespace NameMap

variable {α : Type}

@[ext]
theorem ext {m n : NameMap α} (same : m.entries = n.entries) : m = n := by
  cases m
  cases n
  cases same
  rfl

instance : Inhabited (NameMap α) := ⟨⟨[], .nil⟩⟩

def empty : NameMap α := ⟨[], .nil⟩

/-- Put a value into a list of entries at the place of its name. -/
def place (name : String) (value : α) : List (String × α) → List (String × α)
  | [] => [(name, value)]
  | (other, old) :: rest =>
      if name < other then (name, value) :: (other, old) :: rest
      else if name = other then (name, value) :: rest
      else (other, old) :: place name value rest

theorem mem_place {name : String} {value : α} {entries : List (String × α)} {entry : String × α}
    (found : entry ∈ place name value entries) : entry = (name, value) ∨ entry ∈ entries := by
  induction entries with
  | nil => exact .inl (by simpa [place] using found)
  | cons head rest hypothesis =>
      obtain ⟨other, old⟩ := head
      unfold place at found
      split at found
      · simpa using found
      · split at found
        · rcases List.mem_cons.mp found with here | inRest
          · exact .inl here
          · exact .inr (.tail _ inRest)
        · rcases List.mem_cons.mp found with here | inRest
          · exact .inr (here ▸ .head _)
          · exact (hypothesis inRest).imp_right (.tail _)

theorem place_ordered (name : String) (value : α) {entries : List (String × α)}
    (ordered : entries.Pairwise (fun a b => a.1 < b.1)) :
    (place name value entries).Pairwise (fun a b => a.1 < b.1) := by
  induction entries with
  | nil => simp [place]
  | cons head rest hypothesis =>
      obtain ⟨other, old⟩ := head
      obtain ⟨below, restOrdered⟩ := List.pairwise_cons.mp ordered
      unfold place
      split
      · rename_i before
        refine List.pairwise_cons.mpr ⟨fun entry found => ?_, ordered⟩
        rcases List.mem_cons.mp found with here | inRest
        · exact here ▸ before
        · exact String.lt_trans before (below entry inRest)
      · rename_i notBefore
        split
        · rename_i same
          exact List.pairwise_cons.mpr ⟨fun entry found => same ▸ below entry found, restOrdered⟩
        · rename_i different
          refine List.pairwise_cons.mpr ⟨fun entry found => ?_, hypothesis restOrdered⟩
          rcases mem_place found with here | inRest
          · subst here
            exact Decidable.byContradiction fun notAfter =>
              different (String.le_antisymm (String.not_lt.mp notAfter) (String.not_lt.mp notBefore))
          · exact below entry inRest

def insert (map : NameMap α) (name : String) (value : α) : NameMap α :=
  ⟨place name value map.entries, place_ordered name value map.ordered⟩

def get? (map : NameMap α) (name : String) : Option α := map.entries.lookup name

def contains (map : NameMap α) (name : String) : Bool := (map.get? name).isSome

/-- The last value of a repeated name counts. -/
def insertAll (map : NameMap α) (entries : List (String × α)) : NameMap α :=
  entries.foldl (fun map entry => map.insert entry.1 entry.2) map

def ofList (entries : List (String × α)) : NameMap α := empty.insertAll entries

def keys (map : NameMap α) : List String := map.entries.map (·.1)

def size (map : NameMap α) : Nat := map.entries.length

/-- The same names with other values. -/
def mapValues {β : Type} (f : String → α → β) (map : NameMap α) : NameMap β :=
  ⟨map.entries.map fun entry => (entry.1, f entry.1 entry.2),
    List.pairwise_map.mpr map.ordered⟩

end NameMap

end ReferenceSemantics

import ReferenceSemantics.Value.Basic

set_option autoImplicit false

/-!
What is gathered from values field by field, such as the addresses in them.

Whatever is gathered, a field holds no more than its composite, and a write inside of a value adds
at most what the new part holds.
-/

namespace ReferenceSemantics.Value

/-- Of a composite, what its fields hold is gathered. -/
def Gathers {α : Type} (gather : Value → List α) : Prop :=
  ∀ typeName fields, gather (composite typeName fields) = fields.flatMap fun field => gather field.2

namespace Gathers

variable {α : Type} {gather : Value → List α}

theorem lookup {fields : List (String × Value)} {name : String} {inner : Value}
    (found : fields.lookup name = some inner) :
    gather inner ⊆ fields.flatMap fun field => gather field.2 := by
  obtain ⟨before, after, split, -⟩ := List.lookup_eq_some_iff.mp found
  have member : (name, inner) ∈ fields := by
    rw [split]
    exact List.mem_append_right _ (List.mem_cons_self ..)
  exact fun part inInner => List.mem_flatMap.mpr ⟨_, member, inInner⟩

theorem atPath? (gathers : Gathers gather) {path : List String} {value inner : Value}
    (found : value.atPath? path = some inner) : gather inner ⊆ gather value := by
  induction path generalizing value with
  | nil =>
      cases found
      exact fun _ member => member
  | cons name path inductionHypothesis =>
      obtain ⟨field, here, below⟩ := Option.bind_eq_some_iff.mp found
      cases value with
      | composite typeName fields =>
          intro part member
          rw [gathers]
          exact lookup here (inductionHypothesis below member)
      | _ => cases here

theorem setField? {name : String} {new : Value} {fields changed : List (String × Value)}
    (done : setField? name new fields = some changed) {part : α}
    (member : part ∈ changed.flatMap fun field => gather field.2) :
    (part ∈ fields.flatMap fun field => gather field.2) ∨ part ∈ gather new := by
  induction fields generalizing changed with
  | nil => cases done
  | cons field fields inductionHypothesis =>
      obtain ⟨other, old⟩ := field
      rw [Value.setField?] at done
      split at done
      · cases done
        rw [List.flatMap_cons] at member ⊢
        rcases List.mem_append.mp member with here | later
        · exact .inr here
        · exact .inl (List.mem_append_right _ later)
      · obtain ⟨rest, below, rfl⟩ := Option.map_eq_some_iff.mp done
        rw [List.flatMap_cons] at member ⊢
        rcases List.mem_append.mp member with here | later
        · exact .inl (List.mem_append_left _ here)
        · exact (inductionHypothesis below later).imp_left (List.mem_append_right _)

theorem setAtPath? (gathers : Gathers gather) {path : List String} {value new whole : Value}
    (done : value.setAtPath? path new = some whole) {part : α}
    (member : part ∈ gather whole) : part ∈ gather value ∨ part ∈ gather new := by
  induction path generalizing value whole with
  | nil =>
      simp only [Value.setAtPath?, Option.some.injEq] at done
      exact .inr (done ▸ member)
  | cons name path inductionHypothesis =>
      cases value with
      | composite typeName fields =>
          simp only [Value.setAtPath?, Option.bind_eq_bind, Option.bind_eq_some_iff] at done
          obtain ⟨old, found, inner, below, changed, replaced, made⟩ := done
          obtain rfl := Option.some.inj made
          rw [gathers] at member ⊢
          rcases setField? replaced member with kept | inInner
          · exact .inl kept
          · exact (inductionHypothesis below inInner).imp_left fun held => lookup found held
      | _ => simp [Value.setAtPath?] at done

/-! ### What is gathered from zeros -/

section Zeros

variable {holds : α → Prop}

mutual

/-- What is so of all that the zeros of kinds hold is so of what the zeros of values hold. -/
theorem forall_mem_zeroLike (gathers : Gathers gather)
    (primitives : ∀ value, ∀ part ∈ gather (primitive value), holds part)
    (zeros : ∀ kind, ∀ part ∈ gather (zero kind), holds part) :
    ∀ value : Value, ∀ part ∈ gather value.zeroLike, holds part
  | primitive value => by
      rw [zeroLike]
      exact primitives value.zero
  | composite _ fields => by
      rw [zeroLike, gathers]
      exact forall_mem_zeroFields gathers primitives zeros fields
  | referenceHeader _ _ _ _ | keyValueHeader _ | pointer _ | interfaceBox _ _ => by
      rw [zeroLike]
      exact zeros _

theorem forall_mem_zeroFields (gathers : Gathers gather)
    (primitives : ∀ value, ∀ part ∈ gather (primitive value), holds part)
    (zeros : ∀ kind, ∀ part ∈ gather (zero kind), holds part) :
    ∀ fields : List (String × Value),
      ∀ part ∈ (zeroFields fields).flatMap fun field => gather field.2, holds part
  | [] => by
      rw [zeroFields]
      exact List.forall_mem_nil _
  | (_, value) :: fields => by
      rw [zeroFields, List.flatMap_cons]
      exact List.forall_mem_append.mpr ⟨forall_mem_zeroLike gathers primitives zeros value,
        forall_mem_zeroFields gathers primitives zeros fields⟩

end

/-- Where the zeros of kinds hold nothing, those of values hold nothing. -/
theorem zeroLike_eq_nil (gathers : Gathers gather)
    (primitives : ∀ value, gather (primitive value) = []) (zeros : ∀ kind, gather (zero kind) = [])
    (value : Value) : gather value.zeroLike = [] := by
  refine List.eq_nil_iff_forall_not_mem.mpr ?_
  exact forall_mem_zeroLike gathers (fun value => List.eq_nil_iff_forall_not_mem.mp (primitives value))
    (fun kind => List.eq_nil_iff_forall_not_mem.mp (zeros kind)) value

end Zeros

end Gathers

/-! ### The references of a value -/

theorem referencesOfFields_eq (fields : List (String × Value)) :
    referencesOfFields fields = fields.flatMap fun field => field.2.references := by
  induction fields with
  | nil => rw [referencesOfFields, List.flatMap_nil]
  | cons field fields inductionHypothesis =>
      rw [referencesOfFields, List.flatMap_cons, inductionHypothesis]

theorem references_gathers : Gathers references := fun typeName fields => by
  rw [references, referencesOfFields_eq]

/-- A zero value refers to nothing. -/
theorem references_zeroLike (value : Value) : value.zeroLike.references = [] := by
  refine references_gathers.zeroLike_eq_nil (fun value => ?_) (fun kind => ?_) value
  · rw [references]
  · cases kind <;> simp [zero, int, nilPointer, references]

end ReferenceSemantics.Value

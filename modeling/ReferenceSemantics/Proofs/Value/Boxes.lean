import ReferenceSemantics.Proofs.Value.Gathering

set_option autoImplicit false

/-!
The boxes in a value.

A box in canonical form holds no box itself, and without a type tag the empty pointer. So it is
empty exactly when it has no tag. Values are made of canonical ones without looking at storage.
-/

namespace ReferenceSemantics.Value

mutual

/-- The type tags and the contents of the boxes in a value, at every depth. -/
def boxes : Value → List (Option String × Value)
  | primitive _ | referenceHeader _ _ _ _ | keyValueHeader _ | pointer _ => []
  | composite _ fields => boxesOfFields fields
  | interfaceBox typeTag value => (typeTag, value) :: value.boxes

def boxesOfFields : List (String × Value) → List (Option String × Value)
  | [] => []
  | (_, value) :: fields => value.boxes ++ boxesOfFields fields

end

/-- No box is right in another one, and a box without a type tag holds the empty pointer. -/
def Canonical (value : Value) : Prop :=
  ∀ box ∈ value.boxes, box.2.shape ≠ .interfaceBox ∧ (box.1 = none → box.2 = nilPointer)

theorem boxesOfFields_eq (fields : List (String × Value)) :
    boxesOfFields fields = fields.flatMap fun field => field.2.boxes := by
  induction fields with
  | nil => rw [boxesOfFields, List.flatMap_nil]
  | cons field fields inductionHypothesis =>
      rw [boxesOfFields, List.flatMap_cons, inductionHypothesis]

theorem boxes_gathers : Gathers boxes := fun typeName fields => by
  rw [boxes, boxesOfFields_eq]

theorem canonical_of_boxes {value : Value} (none : value.boxes = []) : value.Canonical := by
  intro box member
  rw [none] at member
  cases member

theorem canonical_primitive (value : Primitive) : (primitive value).Canonical :=
  canonical_of_boxes rfl

theorem canonical_referenceHeader (len cap offset : Nat) (block : Option Address) :
    (referenceHeader len cap offset block).Canonical :=
  canonical_of_boxes rfl

theorem canonical_keyValueHeader (table : Option Address) : (keyValueHeader table).Canonical :=
  canonical_of_boxes rfl

theorem canonical_pointer (target : Option SlotRef) : (pointer target).Canonical :=
  canonical_of_boxes rfl

theorem canonical_composite {typeName : String} {fields : List (String × Value)}
    (canonical : ∀ field ∈ fields, field.2.Canonical) : (composite typeName fields).Canonical := by
  intro box member
  rw [boxes_gathers] at member
  obtain ⟨field, inFields, inField⟩ := List.mem_flatMap.mp member
  exact canonical field inFields box inField

/-! ### Boxes -/

theorem canonical_interfaceBox {typeTag : Option String} {value : Value}
    (unboxed : value.shape ≠ .interfaceBox) (empty : typeTag = none → value = nilPointer)
    (canonical : value.Canonical) : (interfaceBox typeTag value).Canonical := by
  intro box member
  rcases List.mem_cons.mp member with rfl | inside
  · exact ⟨unboxed, empty⟩
  · exact canonical box inside

/-- The empty box is canonical. -/
theorem canonical_of_empty {value : Value}
    (empty : ∀ box ∈ value.boxes, box = (none, nilPointer)) : value.Canonical := by
  intro box member
  rw [empty box member]
  exact ⟨nofun, fun _ => rfl⟩

theorem boxes_zero (kind : Kind) : ∀ box ∈ (zero kind).boxes, box = (none, nilPointer) := by
  cases kind <;> simp [zero, int, nilPointer, boxes]

/-- Every box in a zero is the empty one. -/
theorem boxes_zeroLike (value : Value) :
    ∀ box ∈ value.zeroLike.boxes, box = (none, nilPointer) :=
  boxes_gathers.forall_mem_zeroLike (fun _ => List.forall_mem_nil _) boxes_zero value

theorem canonical_zero (kind : Kind) : (zero kind).Canonical := canonical_of_empty (boxes_zero kind)

theorem canonical_zeroLike (value : Value) : value.zeroLike.Canonical :=
  canonical_of_empty value.boxes_zeroLike

theorem Canonical.inBox {value : Value} (canonical : value.Canonical) : value.inBox.Canonical := by
  cases value with
  | interfaceBox typeTag value => exact canonical
  | _ => exact canonical_interfaceBox nofun nofun canonical

theorem Canonical.tagged {typeTag : Option String} {value : Value}
    (empty : typeTag = none → value = nilPointer) (canonical : value.Canonical) :
    (value.tagged typeTag).Canonical := by
  cases value with
  | interfaceBox tag value => exact canonical
  | _ => exact canonical_interfaceBox nofun empty canonical

/-- A box in a canonical value is empty exactly when it has no type tag. -/
theorem Canonical.isEmpty_iff {value content : Value} {typeTag : Option String}
    (canonical : value.Canonical) (member : (typeTag, content) ∈ value.boxes) :
    (interfaceBox typeTag content).isEmpty = true ↔ typeTag = none := by
  rw [isEmpty, Bool.and_eq_true, Option.isNone_iff_eq_none, and_iff_left_iff_imp]
  intro untagged
  have empty : content = nilPointer := (canonical _ member).2 untagged
  rw [empty]
  rfl

/-- A value that is boxed with its type is not empty, even if it was empty itself. -/
theorem isEmpty_inBox {value : Value} (unboxed : value.shape ≠ .interfaceBox) :
    value.inBox.isEmpty = false := by
  cases value with
  | interfaceBox typeTag value => exact absurd rfl unboxed
  | _ => rfl

/-! ### Fields and paths -/

theorem Canonical.subset {value inner : Value} (canonical : value.Canonical)
    (within : inner.boxes ⊆ value.boxes) : inner.Canonical :=
  fun box member => canonical box (within member)

theorem Canonical.lookup {typeName name : String} {fields : List (String × Value)} {inner : Value}
    (canonical : (composite typeName fields).Canonical)
    (found : fields.lookup name = some inner) : inner.Canonical := by
  apply canonical.subset
  rw [boxes_gathers]
  exact Gathers.lookup found

theorem Canonical.atPath? {path : List String} {value inner : Value} (canonical : value.Canonical)
    (found : value.atPath? path = some inner) : inner.Canonical :=
  canonical.subset (boxes_gathers.atPath? found)

theorem Canonical.setAtPath? {path : List String} {value new whole : Value}
    (canonical : value.Canonical) (newCanonical : new.Canonical)
    (done : value.setAtPath? path new = some whole) : whole.Canonical := by
  intro box member
  rcases boxes_gathers.setAtPath? done member with old | inNew
  · exact canonical box old
  · exact newCanonical box inNew

end ReferenceSemantics.Value

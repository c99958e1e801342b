import ReferenceSemantics.Proofs.Value.Boxes

set_option autoImplicit false

/-!
Zero values.

The zero value of the form of another one has its kind and its fields, so that a path leads to the
zero of what it leads to in the other. It refers to nothing, and of the boxes only the empty one is
in it.
-/

namespace ReferenceSemantics

theorem Primitive.zero_zero (value : Primitive) : value.zero.zero = value.zero := by
  cases value <;> rfl

namespace Value

@[simp]
theorem shape_zeroLike (value : Value) : value.zeroLike.shape = value.shape := by
  cases value <;> rw [zeroLike] <;> rfl

@[simp]
theorem kind_zeroLike (value : Value) : value.zeroLike.kind = value.kind :=
  congrArg Shape.kind value.shape_zeroLike

theorem zeroLike_zero (kind : Kind) : (zero kind).zeroLike = zero kind := by
  cases kind <;> simp [zero, int, nilPointer, zeroLike, Primitive.zero]

mutual

theorem zeroLike_zeroLike : ∀ value : Value, value.zeroLike.zeroLike = value.zeroLike
  | primitive value => by rw [zeroLike, zeroLike, value.zero_zero]
  | composite typeName fields => by rw [zeroLike, zeroLike, zeroFields_zeroFields fields]
  | referenceHeader _ _ _ _ | keyValueHeader _ | pointer _ | interfaceBox _ _ => by
      rw [zeroLike, zeroLike_zero]

theorem zeroFields_zeroFields :
    ∀ fields : List (String × Value), zeroFields (zeroFields fields) = zeroFields fields
  | [] => by rw [zeroFields, zeroFields]
  | (_, value) :: fields => by
      rw [zeroFields, zeroFields, zeroLike_zeroLike value, zeroFields_zeroFields fields]

end

/-! ### Fields and paths -/

theorem lookup_zeroFields (name : String) (fields : List (String × Value)) :
    (zeroFields fields).lookup name = (fields.lookup name).map zeroLike := by
  induction fields with
  | nil => rw [zeroFields]; rfl
  | cons field fields inductionHypothesis =>
      rw [zeroFields, List.lookup_cons, List.lookup_cons, inductionHypothesis]
      split <;> rfl

theorem field?_zeroLike (name : String) (value : Value) :
    value.zeroLike.field? name = (value.field? name).map zeroLike := by
  cases value with
  | composite typeName fields =>
      rw [zeroLike]
      exact lookup_zeroFields name fields
  | _ => rw [zeroLike]; rfl

/-- A path leads to the zero of what it leads to in the value. -/
theorem atPath?_zeroLike (path : List String) (value : Value) :
    value.zeroLike.atPath? path = (value.atPath? path).map zeroLike := by
  induction path generalizing value with
  | nil => rfl
  | cons name path inductionHypothesis =>
      rw [atPath?, atPath?, field?_zeroLike, Option.map_bind, Option.bind_map]
      exact Option.bind_congr fun inner _ => inductionHypothesis inner

theorem zeroLike_eq_composite {value : Value} {typeName : String} :
    (∃ fields, value.zeroLike = composite typeName fields) ↔
      ∃ fields, value = composite typeName fields := by
  cases value <;> simp [zeroLike, zero, nilPointer]

/-- A value of the form of another one that has nothing in it. -/
structure ZeroOf (value zero : Value) : Prop where
  kind : zero.kind = value.kind
  fixed : zero.zeroLike = zero
  inert : zero.references = []
  /-- The same field paths lead to composites of a type. -/
  composites : ∀ path typeName,
    (∃ fields, zero.atPath? path = some (composite typeName fields)) ↔
      ∃ fields, value.atPath? path = some (composite typeName fields)
  /-- The same field paths lead to values. -/
  parts : ∀ path,
    (∃ part, zero.atPath? path = some part) ↔ ∃ part, value.atPath? path = some part
  /-- A box in it is the one without a type tag that holds the empty pointer. -/
  boxes : ∀ box ∈ zero.boxes, box = (none, nilPointer)

theorem zeroOf_zeroLike (value : Value) : value.ZeroOf value.zeroLike where
  kind := value.kind_zeroLike
  fixed := value.zeroLike_zeroLike
  inert := value.references_zeroLike
  composites path typeName := by
    rw [atPath?_zeroLike]
    cases value.atPath? path with
    | none => simp
    | some part => simpa using zeroLike_eq_composite
  parts path := by
    rw [atPath?_zeroLike]
    cases value.atPath? path <;> simp
  boxes := value.boxes_zeroLike

end Value

end ReferenceSemantics

import ReferenceSemantics.Proofs.Value.Gathering

set_option autoImplicit false

/-!
The addresses that the pointers of a value hold.

Whatever is done to a value without looking at storage brings no pointers into it but those of the
values that it is made of.
-/

namespace ReferenceSemantics.Value

mutual

/-- The addresses in the pointers of a value, at every depth. -/
def pointees : Value → List Address
  | primitive _ | referenceHeader _ _ _ _ | keyValueHeader _ => []
  | composite _ fields => pointeesOfFields fields
  | pointer target => (target.map (·.address)).toList
  | interfaceBox _ value => value.pointees

def pointeesOfFields : List (String × Value) → List Address
  | [] => []
  | (_, value) :: fields => value.pointees ++ pointeesOfFields fields

end

@[simp]
theorem pointees_primitive (value : Primitive) : (primitive value).pointees = [] := rfl

@[simp]
theorem pointees_referenceHeader (len cap offset : Nat) (block : Option Address) :
    (referenceHeader len cap offset block).pointees = [] := rfl

@[simp]
theorem pointees_keyValueHeader (table : Option Address) :
    (keyValueHeader table).pointees = [] := rfl

@[simp]
theorem pointees_pointerTo (ref : SlotRef) : (pointerTo ref).pointees = [ref.address] :=
  rfl

@[simp]
theorem pointees_zero (kind : Kind) : (zero kind).pointees = [] := by
  cases kind <;> rfl

theorem pointeesOfFields_eq (fields : List (String × Value)) :
    pointeesOfFields fields = fields.flatMap fun field => field.2.pointees := by
  induction fields with
  | nil => rw [pointeesOfFields, List.flatMap_nil]
  | cons field fields inductionHypothesis =>
      rw [pointeesOfFields, List.flatMap_cons, inductionHypothesis]

theorem pointees_gathers : Gathers pointees := fun typeName fields => by
  rw [pointees, pointeesOfFields_eq]

theorem pointees_zeroLike (value : Value) : value.zeroLike.pointees = [] :=
  pointees_gathers.zeroLike_eq_nil pointees_primitive pointees_zero value

@[simp]
theorem pointees_inBox (value : Value) : value.inBox.pointees = value.pointees := by
  cases value <;> rfl

@[simp]
theorem pointees_tagged (typeTag : Option String) (value : Value) :
    (value.tagged typeTag).pointees = value.pointees := by
  cases value <;> rfl

/-! ### Fields and paths -/

theorem pointees_lookup {fields : List (String × Value)} {name : String} {inner : Value}
    (found : fields.lookup name = some inner) : inner.pointees ⊆ pointeesOfFields fields := by
  rw [pointeesOfFields_eq]
  exact Gathers.lookup found

theorem pointees_atPath? {path : List String} {value inner : Value}
    (found : value.atPath? path = some inner) : inner.pointees ⊆ value.pointees :=
  pointees_gathers.atPath? found

theorem pointees_setAtPath? {path : List String} {value new whole : Value}
    (done : value.setAtPath? path new = some whole) {address : Address}
    (member : address ∈ whole.pointees) : address ∈ value.pointees ∨ address ∈ new.pointees :=
  pointees_gathers.setAtPath? done member

/-- A write inside of a value keeps its kind; one of the whole has to. -/
theorem kind_setAtPath? {path : List String} {value new whole : Value}
    (done : value.setAtPath? path new = some whole)
    (same : path = [] → new.kind = value.kind) : whole.kind = value.kind := by
  cases path with
  | nil =>
      simp only [setAtPath?, Option.some.injEq] at done
      rw [← done]
      exact same rfl
  | cons name path =>
      cases value with
      | composite typeName fields =>
          simp only [setAtPath?, Option.bind_eq_bind, Option.bind_eq_some_iff] at done
          obtain ⟨old, found, inner, below, changed, replaced, made⟩ := done
          obtain rfl := Option.some.inj made
          rfl
      | _ => simp [setAtPath?] at done

end ReferenceSemantics.Value

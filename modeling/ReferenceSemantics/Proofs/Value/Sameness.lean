import ReferenceSemantics.Value.Basic

set_option autoImplicit false

/-!
Equality of values.

It is symmetric and transitive. A value that holds a double that is not a number equals nothing, not
even itself; on all other values it is an equivalence.
-/

namespace ReferenceSemantics

namespace Binary64

theorem same_iff {x y : Binary64} :
    x.same y ↔ x.isNaN = false ∧ y.isNaN = false ∧ (x = y ∨ x.isZero ∧ y.isZero) := by
  obtain ⟨bits⟩ := x
  obtain ⟨bits'⟩ := y
  simp only [same, Bool.and_eq_true, Bool.or_eq_true, Bool.not_eq_true', beq_iff_eq,
    Binary64.mk.injEq, and_assoc]

theorem same_symm {x y : Binary64} (equal : x.same y) : y.same x := by
  obtain ⟨number, number', equal⟩ := same_iff.mp equal
  exact same_iff.mpr ⟨number', number, equal.imp Eq.symm And.symm⟩

theorem same_trans {x y z : Binary64} (before : x.same y) (after : y.same z) : x.same z := by
  obtain ⟨number, -, equal⟩ := same_iff.mp before
  obtain ⟨-, number', equal'⟩ := same_iff.mp after
  refine same_iff.mpr ⟨number, number', ?_⟩
  rcases equal with rfl | zeros
  · exact equal'
  · rcases equal' with rfl | zeros'
    · exact .inr zeros
    · exact .inr ⟨zeros.1, zeros'.2⟩

theorem same_self (x : Binary64) : x.same x = !x.isNaN := by
  simp [same]

end Binary64

namespace Primitive

/-- The primitive is a double that is not a number. -/
def isNaN : Primitive → Bool
  | float x => x.isNaN
  | _ => false

theorem same_symm {first second : Primitive} (equal : first.same second) : second.same first := by
  unfold same at equal
  split at equal
  next a b => exact BEq.symm equal
  next a b => exact BEq.symm equal
  next x y => exact Binary64.same_symm equal
  next a b => exact BEq.symm equal
  next => cases equal

theorem same_trans {first second third : Primitive} (before : first.same second)
    (after : second.same third) : first.same third := by
  unfold same at before
  split at before
  next a b => exact beq_iff_eq.mp before ▸ after
  next a b => exact beq_iff_eq.mp before ▸ after
  next x y =>
    cases third with
    | float z => exact Binary64.same_trans before after
    | bool _ | int _ | string _ => cases after
  next a b => exact beq_iff_eq.mp before ▸ after
  next => cases before

theorem same_self (value : Primitive) : value.same value = !value.isNaN := by
  cases value with
  | float x => exact x.same_self
  | bool _ | int _ | string _ => simp [same, isNaN]

end Primitive

namespace Value

mutual

/-- Some double in the value is not a number. -/
def hasNaN : Value → Bool
  | primitive value => value.isNaN
  | composite _ fields => fieldsHaveNaN fields
  | interfaceBox _ value => value.hasNaN
  | referenceHeader _ _ _ _ | keyValueHeader _ | pointer _ => false

def fieldsHaveNaN : List (String × Value) → Bool
  | [] => false
  | (_, value) :: fields => value.hasNaN || fieldsHaveNaN fields

end

mutual

theorem same_symm : ∀ {first second : Value}, first.same second → second.same first
  | .primitive a, second, equal => by
      cases second with
      | primitive b => exact Primitive.same_symm equal
      | _ => cases equal
  | .composite typeName fields, second, equal => by
      cases second with
      | composite other fields' =>
          obtain ⟨named, equal⟩ := Bool.and_eq_true_iff.mp equal
          exact Bool.and_eq_true_iff.mpr ⟨BEq.symm named, sameFields_symm equal⟩
      | _ => cases equal
  | .referenceHeader len cap offset block, second, equal => by
      cases second with
      | referenceHeader len' cap' offset' block' =>
          simp only [same, Bool.and_eq_true, beq_iff_eq] at equal ⊢
          obtain ⟨⟨⟨rfl, rfl⟩, rfl⟩, rfl⟩ := equal
          exact ⟨⟨⟨rfl, rfl⟩, rfl⟩, rfl⟩
      | _ => cases equal
  | .keyValueHeader table, second, equal => by
      cases second with
      | keyValueHeader table' => exact BEq.symm equal
      | _ => cases equal
  | .pointer target, second, equal => by
      cases second with
      | pointer target' => exact BEq.symm equal
      | _ => cases equal
  | .interfaceBox typeTag value, second, equal => by
      cases second with
      | interfaceBox typeTag' value' =>
          obtain ⟨tagged, equal⟩ := Bool.and_eq_true_iff.mp equal
          exact Bool.and_eq_true_iff.mpr ⟨BEq.symm tagged, same_symm equal⟩
      | _ => cases equal

theorem sameFields_symm : ∀ {fields fields' : List (String × Value)},
    sameFields fields fields' → sameFields fields' fields
  | [], [], _ => rfl
  | [], _ :: _, equal => by cases equal
  | _ :: _, [], equal => by cases equal
  | (name, value) :: fields, (name', value') :: fields', equal => by
      simp only [sameFields, Bool.and_eq_true, beq_iff_eq] at equal ⊢
      exact ⟨⟨equal.1.1.symm, same_symm equal.1.2⟩, sameFields_symm equal.2⟩

end

mutual

theorem same_trans : ∀ {first second third : Value},
    first.same second → second.same third → first.same third
  | .primitive a, second, third, before, after => by
      cases second with
      | primitive b =>
          cases third with
          | primitive c => exact Primitive.same_trans before after
          | _ => cases after
      | _ => cases before
  | .composite typeName fields, second, third, before, after => by
      cases second with
      | composite other fields' =>
          cases third with
          | composite last fields'' =>
              obtain ⟨named, before⟩ := Bool.and_eq_true_iff.mp before
              obtain ⟨named', after⟩ := Bool.and_eq_true_iff.mp after
              exact Bool.and_eq_true_iff.mpr
                ⟨BEq.trans named named', sameFields_trans before after⟩
          | _ => cases after
      | _ => cases before
  | .referenceHeader len cap offset block, second, third, before, after => by
      cases second with
      | referenceHeader len' cap' offset' block' =>
          simp only [same, Bool.and_eq_true, beq_iff_eq] at before
          obtain ⟨⟨⟨rfl, rfl⟩, rfl⟩, rfl⟩ := before
          exact after
      | _ => cases before
  | .keyValueHeader table, second, third, before, after => by
      cases second with
      | keyValueHeader table' => exact beq_iff_eq.mp before ▸ after
      | _ => cases before
  | .pointer target, second, third, before, after => by
      cases second with
      | pointer target' => exact beq_iff_eq.mp before ▸ after
      | _ => cases before
  | .interfaceBox typeTag value, second, third, before, after => by
      cases second with
      | interfaceBox typeTag' value' =>
          cases third with
          | interfaceBox typeTag'' value'' =>
              obtain ⟨tagged, before⟩ := Bool.and_eq_true_iff.mp before
              obtain ⟨tagged', after⟩ := Bool.and_eq_true_iff.mp after
              exact Bool.and_eq_true_iff.mpr ⟨BEq.trans tagged tagged', same_trans before after⟩
          | _ => cases after
      | _ => cases before

theorem sameFields_trans : ∀ {fields fields' fields'' : List (String × Value)},
    sameFields fields fields' → sameFields fields' fields'' → sameFields fields fields''
  | [], [], _, _, after => after
  | [], _ :: _, _, before, _ => by cases before
  | _ :: _, [], _, before, _ => by cases before
  | _ :: _, _ :: _, [], _, after => by cases after
  | (name, value) :: fields, (name', value') :: fields', (name'', value'') :: fields'',
      before, after => by
      simp only [sameFields, Bool.and_eq_true, beq_iff_eq] at before after ⊢
      exact ⟨⟨before.1.1.trans after.1.1, same_trans before.1.2 after.1.2⟩,
        sameFields_trans before.2 after.2⟩

end

mutual

theorem same_self : ∀ value : Value, value.same value = !value.hasNaN
  | .primitive value => value.same_self
  | .composite _ fields => by simp [same, hasNaN, sameFields_self fields]
  | .referenceHeader _ _ _ _ | .keyValueHeader _ | .pointer _ => by simp [same, hasNaN]
  | .interfaceBox _ value => by simp [same, hasNaN, same_self value]

theorem sameFields_self : ∀ fields : List (String × Value),
    sameFields fields fields = !fieldsHaveNaN fields
  | [] => rfl
  | (_, value) :: fields => by
      simp [sameFields, fieldsHaveNaN, same_self value, sameFields_self fields]

end

theorem same_comm (first second : Value) : first.same second = second.same first :=
  Bool.eq_iff_iff.mpr ⟨same_symm, same_symm⟩

/-- Equal values equal the same values. -/
theorem same_congr {first second : Value} (equal : first.same second) (other : Value) :
    first.same other = second.same other :=
  Bool.eq_iff_iff.mpr ⟨same_trans (same_symm equal), same_trans equal⟩

end Value

end ReferenceSemantics

import ReferenceSemantics.Value.Basic

set_option autoImplicit false

/-!
Parts of values: what is read at a path, and what a write there leaves.

A write replaces the part at the end of its path and nothing else. So the new part is read there,
above it the old value around the new part, and at a path that turns off what was there before.
-/

namespace ReferenceSemantics.Value

variable {new value whole : Value} {path : List String}

/-- A value, and the value with the part at the end of a path replaced. Of fields of one name the
path leads into the first. -/
inductive Replaced (new : Value) : (path : List String) → (value whole : Value) → Prop where
  | here (value : Value) : Replaced new [] value new
  | inside (typeName : String) {name : String} {path : List String} {part changed : Value}
      {before : List (String × Value)} (after : List (String × Value))
      (first : ∀ field ∈ before, field.1 ≠ name) (below : Replaced new path part changed) :
      Replaced new (name :: path) (composite typeName (before ++ (name, part) :: after))
        (composite typeName (before ++ (name, changed) :: after))

section Fields

variable {name : String} {before after : List (String × Value)}

theorem lookup_around (first : ∀ field ∈ before, field.1 ≠ name) (part : Value) (other : String) :
    (before ++ (name, part) :: after).lookup other =
      if other = name then some part else (before ++ after).lookup other := by
  by_cases same : other = name
  · subst same
    have passed : before.lookup other = none :=
      List.lookup_eq_none_iff.mpr fun field member => by simpa using (first field member).symm
    rw [List.lookup_append, passed, Option.none_or, List.lookup_cons_self, if_pos rfl]
  · rw [List.lookup_append, List.lookup_append, List.lookup_cons, beq_eq_false_iff_ne.mpr same,
      if_neg same]

theorem setField?_around (first : ∀ field ∈ before, field.1 ≠ name) (old new : Value) :
    setField? name new (before ++ (name, old) :: after) =
      some (before ++ (name, new) :: after) := by
  induction before with
  | nil => rw [List.nil_append, setField?, if_pos rfl, List.nil_append]
  | cons field before inductionHypothesis =>
      rw [List.forall_mem_cons] at first
      rw [List.cons_append, setField?, if_neg first.1, inductionHypothesis first.2]
      rfl

end Fields

/-- The fields around the one that is found under a name. -/
theorem exists_around {name : String} {fields : List (String × Value)} {part : Value}
    (found : fields.lookup name = some part) :
    ∃ before after, fields = before ++ (name, part) :: after ∧
      ∀ field ∈ before, field.1 ≠ name := by
  obtain ⟨before, after, split, first⟩ := List.lookup_eq_some_iff.mp found
  exact ⟨before, after, split, fun field member => (bne_iff_ne.mp (first field member)).symm⟩

theorem replaced_of_setAtPath? (done : value.setAtPath? path new = some whole) :
    Replaced new path value whole := by
  induction path generalizing value whole with
  | nil =>
      simp only [setAtPath?, Option.some.injEq] at done
      exact done ▸ .here value
  | cons name path inductionHypothesis =>
      cases value with
      | composite typeName fields =>
          simp only [setAtPath?, Option.bind_eq_bind, Option.bind_eq_some_iff] at done
          obtain ⟨part, found, changed, below, replaced, put, made⟩ := done
          obtain ⟨before, after, rfl, first⟩ := exists_around found
          rw [setField?_around first] at put
          cases put
          cases made
          exact .inside typeName after first (inductionHypothesis below)
      | _ => simp [setAtPath?] at done

/-- What can be read at a path can be replaced there. -/
theorem setAtPath?_isSome (new : Value) :
    ∀ {value part : Value}, value.atPath? path = some part →
      (value.setAtPath? path new).isSome := by
  induction path with
  | nil => exact fun _ => rfl
  | cons name path inductionHypothesis =>
      intro value part found
      obtain ⟨field, here, below⟩ := Option.bind_eq_some_iff.mp found
      cases value with
      | composite typeName fields =>
          obtain ⟨changed, inside⟩ := Option.isSome_iff_exists.mp (inductionHypothesis below)
          obtain ⟨before, after, rfl, first⟩ := exists_around here
          rw [setAtPath?, lookup_around first, if_pos rfl, Option.bind_eq_bind, Option.bind_some,
            inside, Option.bind_eq_bind, Option.bind_some, setField?_around first]
          rfl
      | _ => cases here

namespace Replaced

/-- Below the path, the new part is read. -/
theorem atPath?_below (replaced : Replaced new path value whole) (rest : List String) :
    whole.atPath? (path ++ rest) = new.atPath? rest := by
  induction replaced with
  | here => rfl
  | inside typeName after first below inductionHypothesis =>
      rw [List.cons_append, atPath?, field?, lookup_around first, if_pos rfl, Option.bind_some,
        inductionHypothesis]

/-- Above the end of the path, the old part is read with the rest of the path replaced in it. -/
theorem atPath?_above {above rest : List String}
    (replaced : Replaced new (above ++ rest) value whole) :
    ∃ part changed, value.atPath? above = some part ∧ whole.atPath? above = some changed ∧
      Replaced new rest part changed := by
  induction above generalizing value whole with
  | nil => exact ⟨value, whole, rfl, rfl, replaced⟩
  | cons name above inductionHypothesis =>
      rw [List.cons_append] at replaced
      cases replaced with
      | inside typeName after first below =>
          obtain ⟨part, changed, old, new, replaced⟩ := inductionHypothesis below
          refine ⟨part, changed, ?_, ?_, replaced⟩
          · rw [atPath?, field?, lookup_around first, if_pos rfl, Option.bind_some, old]
          · rw [atPath?, field?, lookup_around first, if_pos rfl, Option.bind_some, new]

/-- At a path that turns off, the same is read as before. -/
theorem atPath?_apart (replaced : Replaced new path value whole) {other : List String}
    (notBelow : ¬ path <+: other) (notAbove : ¬ other <+: path) :
    whole.atPath? other = value.atPath? other := by
  induction replaced generalizing other with
  | here => exact absurd List.nil_prefix notBelow
  | @inside typeName name path part changed before after first below inductionHypothesis =>
      cases other with
      | nil => exact absurd List.nil_prefix notAbove
      | cons turn other =>
          rw [atPath?, atPath?, field?, field?, lookup_around first, lookup_around first]
          by_cases same : turn = name
          · subst same
            rw [List.prefix_cons_inj] at notBelow notAbove
            rw [if_pos rfl, if_pos rfl, Option.bind_some, Option.bind_some,
              inductionHypothesis notBelow notAbove]
          · rw [if_neg same, if_neg same]

end Replaced

end ReferenceSemantics.Value

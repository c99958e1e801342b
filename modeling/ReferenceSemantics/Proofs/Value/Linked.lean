import ReferenceSemantics.Value.Basic

set_option autoImplicit false

/-!
Values that differ only in the addresses they hold.

Links say which addresses of two storages stand for each other. Linked values have the same form at
every depth, their addresses are linked, and their headers are windows into blocks of one size.
Whatever is done to a value without looking at storage can be done to a linked one.
-/

namespace ReferenceSemantics

/-- Which slots, blocks and tables of two storages stand for each other. -/
structure Links where
  slot : Address → Address → Prop
  /-- The blocks have so many cells. -/
  block : Address → Address → (cells : Nat) → Prop
  table : Address → Address → Prop

namespace Links

/-- Everything linked before is linked still. -/
structure Le (first second : Links) : Prop where
  slot : ∀ {left right}, first.slot left right → second.slot left right
  block : ∀ {left right cells}, first.block left right cells → second.block left right cells
  table : ∀ {left right}, first.table left right → second.table left right

theorem Le.refl (links : Links) : links.Le links := ⟨id, id, id⟩

/-- No address stands for two. -/
structure BiUnique (links : Links) : Prop where
  slot : ∀ {left left' right right'}, links.slot left right → links.slot left' right' →
    (left = left' ↔ right = right')
  block : ∀ {left left' right right' cells cells'}, links.block left right cells →
    links.block left' right' cells' → (left = left' ↔ right = right')
  table : ∀ {left left' right right'}, links.table left right → links.table left' right' →
    (left = left' ↔ right = right')

/-- Every address stands for itself. -/
structure Diagonal (links : Links) : Prop where
  slot : ∀ {left right}, links.slot left right → left = right
  block : ∀ {left right cells}, links.block left right cells → left = right
  table : ∀ {left right}, links.table left right → left = right

theorem Diagonal.biUnique {links : Links} (diagonal : links.Diagonal) : links.BiUnique := by
  refine ⟨?_, ?_, ?_⟩
  · intro _ _ _ _ first second
    rw [diagonal.slot first, diagonal.slot second]
  · intro _ _ _ _ _ _ first second
    rw [diagonal.block first, diagonal.block second]
  · intro _ _ _ _ first second
    rw [diagonal.table first, diagonal.table second]

end Links

namespace Value

mutual

inductive Linked (links : Links) : Value → Value → Prop where
  | primitive (value : Primitive) : Linked links (.primitive value) (.primitive value)
  | composite (typeName : String) {fields fields' : List (String × Value)}
      (linked : FieldsLinked links fields fields') :
      Linked links (.composite typeName fields) (.composite typeName fields')
  | nilReference : Linked links (.referenceHeader 0 0 0 none) (.referenceHeader 0 0 0 none)
  | reference {len cap offset : Nat} {block block' : Address} (within : len ≤ cap)
      (linked : links.block block block' (offset + cap)) :
      Linked links (.referenceHeader len cap offset (some block))
        (.referenceHeader len cap offset (some block'))
  | nilKeyValue : Linked links (.keyValueHeader none) (.keyValueHeader none)
  | keyValue {table table' : Address} (linked : links.table table table') :
      Linked links (.keyValueHeader (some table)) (.keyValueHeader (some table'))
  | nilPointer : Linked links (.pointer none) (.pointer none)
  | pointer {address address' : Address} (path : List String)
      (linked : links.slot address address') :
      Linked links (.pointer (some ⟨address, path⟩)) (.pointer (some ⟨address', path⟩))
  | interfaceBox (typeTag : Option String) {value value' : Value}
      (linked : Linked links value value') :
      Linked links (.interfaceBox typeTag value) (.interfaceBox typeTag value')

inductive FieldsLinked (links : Links) :
    List (String × Value) → List (String × Value) → Prop where
  | nil : FieldsLinked links [] []
  | cons (name : String) {value value' : Value} {fields fields' : List (String × Value)}
      (first : Linked links value value') (rest : FieldsLinked links fields fields') :
      FieldsLinked links ((name, value) :: fields) ((name, value') :: fields')

end

variable {links : Links} {value value' : Value} {fields fields' : List (String × Value)}

mutual

theorem Linked.mono {second : Links} (kept : links.Le second) {value value' : Value} :
    Linked links value value' → Linked second value value'
  | .primitive value => .primitive value
  | .composite typeName linked => .composite typeName (linked.mono kept)
  | .nilReference => .nilReference
  | .reference within linked => .reference within (kept.block linked)
  | .nilKeyValue => .nilKeyValue
  | .keyValue linked => .keyValue (kept.table linked)
  | .nilPointer => .nilPointer
  | .pointer path linked => .pointer path (kept.slot linked)
  | .interfaceBox typeTag linked => .interfaceBox typeTag (linked.mono kept)

theorem FieldsLinked.mono {second : Links} (kept : links.Le second)
    {fields fields' : List (String × Value)} :
    FieldsLinked links fields fields' → FieldsLinked second fields fields'
  | .nil => .nil
  | .cons name first rest => .cons name (first.mono kept) (rest.mono kept)

end

mutual

theorem Linked.eq_of_diagonal (diagonal : links.Diagonal) {value value' : Value} :
    Linked links value value' → value = value'
  | .primitive _ | .nilReference | .nilKeyValue | .nilPointer => rfl
  | .composite typeName linked => by rw [linked.eq_of_diagonal diagonal]
  | .reference _ linked => by rw [diagonal.block linked]
  | .keyValue linked => by rw [diagonal.table linked]
  | .pointer _ linked => by rw [diagonal.slot linked]
  | .interfaceBox _ linked => by rw [linked.eq_of_diagonal diagonal]

theorem FieldsLinked.eq_of_diagonal (diagonal : links.Diagonal)
    {fields fields' : List (String × Value)} :
    FieldsLinked links fields fields' → fields = fields'
  | .nil => rfl
  | .cons name first rest => by rw [first.eq_of_diagonal diagonal, rest.eq_of_diagonal diagonal]

end

/-! ### What linked values have in common -/

theorem Linked.shape (linked : Linked links value value') : value.shape = value'.shape := by
  cases linked <;> rfl

theorem Linked.kind (linked : Linked links value value') : value.kind = value'.kind :=
  congrArg Shape.kind linked.shape

theorem Linked.isPointer (linked : Linked links value value') :
    value.isPointer = value'.isPointer := by
  cases linked <;> rfl

theorem Linked.asInt? (linked : Linked links value value') : value.asInt? = value'.asInt? := by
  cases linked <;> rfl

theorem Linked.isEmpty {value value' : Value} :
    Linked links value value' → value.isEmpty = value'.isEmpty
  | .primitive _ | .composite _ _ | .nilReference | .reference _ _ | .nilKeyValue | .keyValue _
  | .nilPointer | .pointer _ _ => rfl
  | .interfaceBox typeTag linked => by rw [Value.isEmpty, Value.isEmpty, linked.isEmpty]

theorem beq_congr {α : Type} [BEq α] [LawfulBEq α] {first second first' second' : α}
    (same : first = second ↔ first' = second') : (first == second) = (first' == second') := by
  rw [Bool.eq_iff_iff, beq_iff_eq, beq_iff_eq]
  exact same

mutual

theorem Linked.same (unique : links.BiUnique) {first first' second second' : Value} :
    Linked links first first' → Linked links second second' →
      first.same second = first'.same second'
  | .primitive _, other => by cases other <;> simp [Value.same]
  | .composite _ linked, other => by
      cases other with
      | composite _ linked' => simp only [Value.same, linked.same unique linked']
      | _ => simp [Value.same]
  | .nilReference, other => by cases other <;> simp [Value.same]
  | .reference _ linked, other => by
      cases other with
      | reference _ linked' =>
          have same := unique.block linked linked'
          simp only [Value.same, Option.some_beq_some, beq_congr same]
      | _ => simp [Value.same]
  | .nilKeyValue, other => by cases other <;> simp [Value.same]
  | .keyValue linked, other => by
      cases other with
      | keyValue linked' =>
          have same := unique.table linked linked'
          simp only [Value.same, Option.some_beq_some, beq_congr same]
      | _ => simp [Value.same]
  | .nilPointer, other => by cases other <;> simp [Value.same]
  | .pointer _ linked, other => by
      cases other with
      | pointer _ linked' =>
          have same := unique.slot linked linked'
          simp only [Value.same, Option.some_beq_some]
          exact beq_congr (by simp [same])
      | _ => simp [Value.same]
  | .interfaceBox _ linked, other => by
      cases other with
      | interfaceBox _ linked' => simp only [Value.same, linked.same unique linked']
      | _ => simp [Value.same]

theorem FieldsLinked.same (unique : links.BiUnique)
    {first first' second second' : List (String × Value)} :
    FieldsLinked links first first' → FieldsLinked links second second' →
      sameFields first second = sameFields first' second'
  | .nil, other => by cases other <;> simp [sameFields]
  | .cons _ linked rest, other => by
      cases other with
      | nil => simp [sameFields]
      | cons _ linked' rest' =>
          simp only [sameFields, linked.same unique linked', rest.same unique rest']

end

/-! ### Building linked values -/

theorem Linked.zero (kind : Kind) : Linked links (.zero kind) (.zero kind) := by
  cases kind with
  | value => exact .primitive _
  | pointer => exact .nilPointer
  | referenceHeader => exact .nilReference
  | keyValueHeader => exact .nilKeyValue
  | interfaceBox => exact .interfaceBox none .nilPointer

mutual

theorem Linked.zeroLike {value value' : Value} :
    Linked links value value' → Linked links value.zeroLike value'.zeroLike
  | .primitive value => .primitive value.zero
  | .composite typeName linked => .composite typeName linked.zeroFields
  | .nilReference | .reference _ _ => .zero .referenceHeader
  | .nilKeyValue | .keyValue _ => .zero .keyValueHeader
  | .nilPointer | .pointer _ _ => .zero .pointer
  | .interfaceBox _ _ => .zero .interfaceBox

theorem FieldsLinked.zeroFields {fields fields' : List (String × Value)} :
    FieldsLinked links fields fields' →
      FieldsLinked links (Value.zeroFields fields) (Value.zeroFields fields')
  | .nil => .nil
  | .cons name first rest => .cons name first.zeroLike rest.zeroFields

end

theorem Linked.inBox (linked : Linked links value value') :
    Linked links value.inBox value'.inBox := by
  cases linked with
  | interfaceBox typeTag inner => exact .interfaceBox typeTag inner
  | composite typeName inner => exact .interfaceBox (some typeName) (.composite typeName inner)
  | primitive value => exact .interfaceBox _ (.primitive value)
  | nilReference => exact .interfaceBox _ .nilReference
  | reference within inner => exact .interfaceBox _ (.reference within inner)
  | nilKeyValue => exact .interfaceBox _ .nilKeyValue
  | keyValue inner => exact .interfaceBox _ (.keyValue inner)
  | nilPointer => exact .interfaceBox _ .nilPointer
  | pointer path inner => exact .interfaceBox _ (.pointer path inner)

theorem Linked.tagged (linked : Linked links value value') (typeTag : Option String) :
    Linked links (value.tagged typeTag) (value'.tagged typeTag) := by
  cases linked with
  | interfaceBox tag inner => exact .interfaceBox tag inner
  | composite typeName inner => exact .interfaceBox typeTag (.composite typeName inner)
  | primitive value => exact .interfaceBox typeTag (.primitive value)
  | nilReference => exact .interfaceBox typeTag .nilReference
  | reference within inner => exact .interfaceBox typeTag (.reference within inner)
  | nilKeyValue => exact .interfaceBox typeTag .nilKeyValue
  | keyValue inner => exact .interfaceBox typeTag (.keyValue inner)
  | nilPointer => exact .interfaceBox typeTag .nilPointer
  | pointer path inner => exact .interfaceBox typeTag (.pointer path inner)

/-! ### Fields and paths -/

theorem rel_bind {α α' β β' : Type} {first : α → α' → Prop} {second : β → β' → Prop}
    {option : Option α} {option' : Option α'} {next : α → Option β} {next' : α' → Option β'}
    (related : Option.Rel first option option')
    (step : ∀ value value', first value value' → Option.Rel second (next value) (next' value')) :
    Option.Rel second (option.bind next) (option'.bind next') := by
  cases related with
  | none => exact .none
  | some related => exact step _ _ related

theorem FieldsLinked.lookup (name : String) {fields fields' : List (String × Value)}
    (linked : FieldsLinked links fields fields') :
    Option.Rel (Linked links) (fields.lookup name) (fields'.lookup name) := by
  match linked with
  | .nil => exact .none
  | .cons other first rest =>
      simp only [List.lookup_cons]
      split
      · exact .some first
      · exact rest.lookup name

theorem Linked.field? (name : String) (linked : Linked links value value') :
    Option.Rel (Linked links) (value.field? name) (value'.field? name) := by
  cases linked with
  | composite typeName inner => exact inner.lookup name
  | _ => exact .none

theorem Linked.atPath? (path : List String) (linked : Linked links value value') :
    Option.Rel (Linked links) (value.atPath? path) (value'.atPath? path) := by
  induction path generalizing value value' with
  | nil => exact .some linked
  | cons name path inductionHypothesis =>
      exact rel_bind (linked.field? name) fun _ _ inner => inductionHypothesis inner

theorem FieldsLinked.setField? {new new' : Value} (name : String)
    (replaced : Linked links new new') {fields fields' : List (String × Value)}
    (linked : FieldsLinked links fields fields') :
    Option.Rel (FieldsLinked links) (Value.setField? name new fields)
      (Value.setField? name new' fields') := by
  match linked with
  | .nil => exact .none
  | .cons other first rest =>
      rw [Value.setField?, Value.setField?]
      split
      · exact .some (.cons other replaced rest)
      · rw [Option.map_eq_bind, Option.map_eq_bind]
        exact rel_bind (rest.setField? name replaced) fun _ _ rest =>
          .some (.cons other first rest)

theorem Linked.setAtPath? {new new' : Value} (linked : Linked links value value')
    (path : List String) (replaced : Linked links new new') :
    Option.Rel (Linked links) (value.setAtPath? path new) (value'.setAtPath? path new') := by
  induction path generalizing value value' with
  | nil =>
      simp only [Value.setAtPath?]
      exact .some replaced
  | cons name path inductionHypothesis =>
      cases linked with
      | composite typeName inner =>
          simp only [Value.setAtPath?]
          refine rel_bind (inner.lookup name) fun _ _ old => ?_
          refine rel_bind (inductionHypothesis old) fun _ _ below => ?_
          exact rel_bind (inner.setField? name below) fun _ _ fields =>
            .some (.composite typeName fields)
      | _ =>
          simp only [Value.setAtPath?]
          exact .none

end Value

end ReferenceSemantics

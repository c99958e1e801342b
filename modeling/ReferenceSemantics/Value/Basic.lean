import ReferenceSemantics.Program.Basic

set_option autoImplicit false

/-!
The values that slots hold.

Primitives and composites are copied whole. A pointer copies its address and shares its target; a
header copies its window and shares the block or table behind it. A box is empty only when it has
no type tag and its content is empty.
-/

namespace ReferenceSemantics

abbrev Address := Nat

/-- A slot, or the field of a composite in it that a path of names leads to. -/
structure SlotRef where
  address : Address
  path : List String
deriving DecidableEq, Repr, Inhabited

namespace SlotRef

def ofAddress (address : Address) : SlotRef := ⟨address, []⟩

def field (ref : SlotRef) (name : String) : SlotRef := ⟨ref.address, ref.path ++ [name]⟩

end SlotRef

inductive Value where
  | primitive (value : Primitive)
  /-- The fields keep the order of their declaration. -/
  | composite (typeName : String) (fields : List (String × Value))
  /-- `len` cells from `offset` on are elements, and `cap - len` more cells are spare. -/
  | referenceHeader (len cap offset : Nat) (block : Option Address)
  | keyValueHeader (table : Option Address)
  | pointer (target : Option SlotRef)
  | interfaceBox (typeTag : Option String) (value : Value)
deriving Inhabited

/-- The form of a value, finer than the kind of slot that holds it. -/
inductive Shape where
  | primitive
  | composite
  | referenceHeader
  | keyValueHeader
  | pointer
  | interfaceBox
deriving DecidableEq, Repr, Inhabited

namespace Shape

def name : Shape → String
  | primitive => "primitive"
  | composite => "composite"
  | referenceHeader => "reference_header"
  | keyValueHeader => "key_value_header"
  | pointer => "pointer"
  | interfaceBox => "interface_box"

/-- The kind of slot for values of this form. -/
def kind : Shape → Kind
  | primitive | composite => .value
  | referenceHeader => .referenceHeader
  | keyValueHeader => .keyValueHeader
  | pointer => .pointer
  | interfaceBox => .interfaceBox

end Shape

namespace Value

def int (n : Int) : Value := primitive (.int n)

def bool (b : Bool) : Value := primitive (.bool b)

def string (s : String) : Value := primitive (.string s)

def nilPointer : Value := pointer none

def pointerTo (target : SlotRef) : Value := pointer (some target)

/-- The zero value of a kind. -/
def zero : Kind → Value
  | .value => int 0
  | .pointer => nilPointer
  | .referenceHeader => referenceHeader 0 0 0 none
  | .keyValueHeader => keyValueHeader none
  | .interfaceBox => interfaceBox none nilPointer

def shape : Value → Shape
  | primitive _ => .primitive
  | composite _ _ => .composite
  | referenceHeader _ _ _ _ => .referenceHeader
  | keyValueHeader _ => .keyValueHeader
  | pointer _ => .pointer
  | interfaceBox _ _ => .interfaceBox

def kind (value : Value) : Kind := value.shape.kind

mutual

/-- The zero value of the same form; a composite keeps its fields. -/
def zeroLike : Value → Value
  | primitive value => primitive value.zero
  | composite typeName fields => composite typeName (zeroFields fields)
  | referenceHeader _ _ _ _ => zero .referenceHeader
  | keyValueHeader _ => zero .keyValueHeader
  | pointer _ => zero .pointer
  | interfaceBox _ _ => zero .interfaceBox

def zeroFields : List (String × Value) → List (String × Value)
  | [] => []
  | (name, value) :: fields => (name, value.zeroLike) :: zeroFields fields

end

mutual

/-- Equality of values, the keys of tables included: part by part, doubles as numbers. -/
def same : Value → Value → Bool
  | primitive a, primitive b => a.same b
  | composite typeName fields, composite otherName others =>
      typeName == otherName && sameFields fields others
  | referenceHeader len cap offset block, referenceHeader len' cap' offset' block' =>
      len == len' && cap == cap' && offset == offset' && block == block'
  | keyValueHeader table, keyValueHeader table' => table == table'
  | pointer target, pointer target' => target == target'
  | interfaceBox typeTag value, interfaceBox typeTag' value' =>
      typeTag == typeTag' && value.same value'
  | _, _ => false

def sameFields : List (String × Value) → List (String × Value) → Bool
  | [], [] => true
  | (name, value) :: fields, (name', value') :: fields' =>
      name == name' && value.same value' && sameFields fields fields'
  | _, _ => false

end

/-- Primitives and composites are never empty. -/
def isEmpty : Value → Bool
  | primitive _ | composite _ _ => false
  | referenceHeader _ _ _ block | keyValueHeader block => block.isNone
  | pointer target => target.isNone
  | interfaceBox typeTag value => typeTag.isNone && value.isEmpty

def asInt? : Value → Option Int
  | primitive (.int n) => some n
  | _ => none

def isPointer : Value → Bool
  | pointer _ => true
  | _ => false

/-- The value under a name; of a repeated name the first. -/
def field? (name : String) : Value → Option Value
  | composite _ fields => fields.lookup name
  | _ => none

/-- Follow a path of field names. -/
def atPath? (value : Value) : List String → Option Value
  | [] => some value
  | name :: path => (value.field? name).bind fun inner => inner.atPath? path

/-- Replace the value under a name that is present. -/
def setField? (name : String) (new : Value) : List (String × Value) →
    Option (List (String × Value))
  | [] => none
  | (other, old) :: fields =>
      if other = name then some ((other, new) :: fields)
      else (setField? name new fields).map ((other, old) :: ·)

/-- Replace the value at the end of a path; absent when the path leads nowhere. -/
def setAtPath? : (value : Value) → (path : List String) → (new : Value) → Option Value
  | _, [], new => some new
  | composite typeName fields, name :: path, new => do
      let inner ← setAtPath? (← fields.lookup name) path new
      return composite typeName (← setField? name inner fields)
  | _, _ :: _, _ => none

mutual

/-- The addresses a value holds, in pointers and in headers. -/
def references : Value → List Address
  | primitive _ => []
  | composite _ fields => referencesOfFields fields
  | referenceHeader _ _ _ block | keyValueHeader block => block.toList
  | pointer target => (target.map (·.address)).toList
  | interfaceBox _ value => value.references

def referencesOfFields : List (String × Value) → List Address
  | [] => []
  | (_, value) :: fields => value.references ++ referencesOfFields fields

end

/-- A concrete value becomes a box tagged with its type; a box stays as it is. -/
def inBox : Value → Value
  | interfaceBox typeTag value => interfaceBox typeTag value
  | composite typeName fields => interfaceBox (some typeName) (composite typeName fields)
  | value => interfaceBox (some value.shape.name) value

/-- A value in a box with a tag; a box keeps the tag that it has. -/
def tagged (typeTag : Option String) : Value → Value
  | interfaceBox tag value => interfaceBox tag value
  | value => interfaceBox typeTag value

/-- The block or table behind a header. -/
def behind? : Value → Option Address
  | referenceHeader _ _ _ block | keyValueHeader block => block
  | _ => none

end Value

end ReferenceSemantics

import ReferenceSemantics.Json.Decode

set_option autoImplicit false

/-!
Records: objects with known fields.

The fields may come in any order, each at most once; others are passed over. A record may also be
written as an array of its fields in their declared order, of which those at the end may be left
out if they have a default.
-/

namespace ReferenceSemantics

/-- A way to read a record, field by field into slots. -/
structure Record (α : Type) where
  /-- The names of the fields in their declared order. -/
  names : List String
  Slots : Type
  blank : Slots
  /-- Read the value of a field into its slot. -/
  fill : String → Slots → Decoder Slots
  /-- The record, unless a field is missing; `listed` when it is written as an array. -/
  finish : (listed : Bool) → Slots → Option α

namespace Record

variable {α β : Type}

/-- One field, with what it is when it is missing. A repeated field is no record. -/
def field (name : String) (decoder : Decoder α) (missing : (listed : Bool) → Option α) :
    Record α where
  names := [name]
  Slots := Option α
  blank := none
  fill _ slot := ⟨fun setting tree =>
    match slot with
    | some _ => .error .mismatched
    | none => some <$> decoder.read setting tree⟩
  finish listed slot := slot <|> missing listed

def required (name : String) (decoder : Decoder α) : Record α :=
  field name decoder fun _ => none

def withDefault (name : String) (decoder : Decoder α) (default : α) : Record α :=
  field name decoder fun _ => some default

/-- Absent when missing or `null`. -/
def optional (name : String) (decoder : Decoder α) : Record (Option α) :=
  withDefault name decoder.option none

/-- Absent when missing or `null`, but not to be left out of an array. -/
def nullable (name : String) (decoder : Decoder α) : Record (Option α) :=
  field name decoder.option fun listed => if listed then none else some none

instance : Functor Record where
  map f record :=
    { record with finish := fun listed slots => (record.finish listed slots).map f }

/-- The fields of both records. -/
instance : Seq Record where
  seq first second :=
    let second := second ()
    { names := first.names ++ second.names
      Slots := first.Slots × second.Slots
      blank := (first.blank, second.blank)
      fill := fun name (left, right) =>
        if first.names.contains name then (·, right) <$> first.fill name left
        else (left, ·) <$> second.fill name right
      finish := fun listed (left, right) => do
        return (← first.finish listed left) (← second.finish listed right) }

variable (record : Record α)

def readMembers (setting : Setting) :
    Tree.Members → record.Slots → Except ReadError record.Slots
  | [], slots => .ok slots
  | (name, value) :: members, slots => do
      let name ← Tree.readName name
      if record.names.contains name then
        readMembers setting members (← (record.fill name slots).read setting value)
      else
        value.skip
        readMembers setting members slots

def readItems (setting : Setting) :
    List String → List Tree → record.Slots → Except ReadError record.Slots
  | _, [], slots => .ok slots
  | [], _ :: _, _ => .error setting.surplus
  | name :: names, item :: items, slots => do
      readItems setting names items (← (record.fill name slots).read setting item)

/-- The record whose parts have been read. -/
def complete (listed : Bool) (slots : record.Slots) : Except ReadError α :=
  (record.finish listed slots).elim (.error .mismatched) .ok

def decoder : Decoder α where
  read
    | setting, .obj members ending => do
        let slots ← record.readMembers (← setting.inner) members record.blank
        Tree.close ending
        record.complete false slots
    | setting, .arr items ending => do
        let slots ← record.readItems (← setting.inner) record.names items record.blank
        Tree.close ending
        record.complete true slots
    | _, tree => .error tree.misfit

end Record

/-- A pair written as a record of two fields. -/
def Decoder.pair {α β : Type} (first second : String) (left : Decoder α) (right : Decoder β) :
    Decoder (α × β) :=
  Record.decoder (Prod.mk <$> .required first left <*> .required second right)

end ReferenceSemantics

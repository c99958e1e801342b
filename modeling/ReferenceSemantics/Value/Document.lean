import ReferenceSemantics.Program.Document
import ReferenceSemantics.Value.Basic

set_option autoImplicit false

/-!
The JSON form of values: objects with the tag `kind`. An absent block, target or type tag is
written as `null`, and a path that is empty is left out.
-/

namespace ReferenceSemantics

namespace SlotRef

def toJson (ref : SlotRef) : Json :=
  .obj ([("address", .ofNat ref.address)]
    ++ if ref.path.isEmpty then [] else [("path", .ofList .str ref.path)])

def decoder : Decoder SlotRef :=
  Record.decoder (mk <$> .required "address" .word <*> .withDefault "path" (.list .text) [])

end SlotRef

namespace Value

mutual

def toJson : Value → Json
  | primitive value => .obj (("kind", .str "primitive") :: value.toJsonFields)
  | composite typeName fields =>
      .obj [("kind", .str "composite"), ("type_name", .str typeName),
        ("fields", .arr (partsToJson fields))]
  | referenceHeader len cap offset block =>
      .obj [("kind", .str "reference_header"), ("len", .ofNat len), ("cap", .ofNat cap),
        ("offset", .ofNat offset), ("block", .ofOption .ofNat block)]
  | keyValueHeader table =>
      .obj [("kind", .str "key_value_header"), ("block", .ofOption .ofNat table)]
  | pointer target =>
      .obj [("kind", .str "pointer"), ("target", .ofOption SlotRef.toJson target)]
  | interfaceBox typeTag value =>
      .obj [("kind", .str "interface_box"), ("type_tag", .ofOption .str typeTag),
        ("value", value.toJson)]

def partsToJson : List (String × Value) → List Json
  | [] => []
  | (name, value) :: fields =>
      .obj [("name", .str name), ("value", value.toJson)] :: partsToJson fields

end

/-- How the parts of a value are read, given how those inside it are. -/
def variants (value : Decoder Value) : List (String × Decoder Value) :=
  [("primitive", primitive <$> Primitive.decoder),
    ("composite", Record.decoder (composite <$> .required "type_name" .text
      <*> .required "fields" (.list (.pair "name" "value" .text value)))),
    ("reference_header", Record.decoder (referenceHeader <$> .required "len" .word
      <*> .required "cap" .word <*> .withDefault "offset" .word 0 <*> .nullable "block" .word)),
    ("key_value_header", Record.decoder (keyValueHeader <$> .nullable "block" .word)),
    ("pointer", Record.decoder (pointer <$> .nullable "target" SlotRef.decoder)),
    ("interface_box", Record.decoder (interfaceBox <$> .nullable "type_tag" .text
      <*> .required "value" value))]

/-- Reads a value of at most so many levels. -/
def read : (levels : Nat) → Setting → Tree → Except ReadError Value
  | 0, _, tree => .error tree.misfit
  | levels + 1, setting, tree =>
      (Decoder.tagged "kind" (variants ⟨read levels⟩)).read setting tree

def decoder : Decoder Value := ⟨read maxDepth⟩

end Value

end ReferenceSemantics

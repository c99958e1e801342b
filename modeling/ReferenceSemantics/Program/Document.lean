import ReferenceSemantics.Json.Record
import ReferenceSemantics.Program.Basic

set_option autoImplicit false

/-!
The JSON form of programs.

Statements, expressions and places are objects with a tag (`stmt`, `expr`, `place`). Optional parts
are left out when absent; lists and kinds with a default are always written. What has a tag is taken
in whole before it is read, and then has at most `maxDepth` levels.
-/

namespace ReferenceSemantics

namespace Location

def toJson (location : Location) : Json :=
  .obj [("function", .str location.function), ("statement", .ofNat location.statement)]

def decoder : Decoder Location :=
  Record.decoder (mk <$> .required "function" .text <*> .required "statement" .word)

end Location

namespace Kind

def toJson (kind : Kind) : Json := .str kind.name

def decoder : Decoder Kind := .choice all name

end Kind

namespace Primitive

def toJsonFields : Primitive → Fields
  | bool value => [("type", .str "bool"), ("value", .bool value)]
  | int value => [("type", .str "int"), ("value", .int value)]
  | float value => [("type", .str "float"), ("value", .float value)]
  | string value => [("type", .str "string"), ("value", .str value)]

def toJson (primitive : Primitive) : Json := .obj primitive.toJsonFields

def variants : List (String × Decoder Primitive) :=
  [("bool", Record.decoder (bool <$> .required "value" .flag)),
    ("int", Record.decoder (int <$> .required "value" .integer)),
    ("float", Record.decoder (float <$> .required "value" .float)),
    ("string", Record.decoder (string <$> .required "value" .text))]

/-- Among the members the type is a choice of four; as a first item it is a tag. -/
def decoder : Decoder Primitive :=
  .taggedBy "type" (Prod.snd <$> .choice variants Prod.fst) (.variant variants)

end Primitive

mutual

def Place.toJson : Place → Json
  | .var name => .obj [("place", .str "var"), ("name", .str name)]
  | .field base name =>
      .obj [("place", .str "field"), ("base", base.toJson), ("field", .str name)]
  | .deref pointer => .obj [("place", .str "deref"), ("pointer", pointer.toJson)]

def Expr.toJson : Expr → Json
  | .lit value => .obj [("expr", .str "lit"), ("value", value.toJson)]
  | .nil => .obj [("expr", .str "nil")]
  | .var name => .obj [("expr", .str "var"), ("name", .str name)]
  | .field base name => .obj [("expr", .str "field"), ("base", base.toJson), ("field", .str name)]
  | .deref pointer => .obj [("expr", .str "deref"), ("pointer", pointer.toJson)]
  | .addrOf place => .obj [("expr", .str "addr_of"), ("place", place.toJson)]
  | .new init site => .obj [("expr", .str "new"), ("init", init.toJson), ("site", .str site)]
  | .composite typeName fields =>
      .obj [("expr", .str "composite"), ("type_name", .str typeName),
        ("fields", .arr (fieldsToJson fields))]
  | .sliceLit elems capacity =>
      .obj ([("expr", .str "slice_lit"), ("elems", .arr (exprsToJson elems))]
        ++ Json.fieldOfOption "capacity" .ofNat capacity)
  | .makeSlice len cap zero =>
      .obj [("expr", .str "make_slice"), ("len", .ofNat len), ("cap", .ofNat cap),
        ("zero", zero.toJson)]
  | .mapLit entries => .obj [("expr", .str "map_lit"), ("entries", .arr (entriesToJson entries))]
  | .index base index =>
      .obj [("expr", .str "index"), ("base", base.toJson), ("index", index.toJson)]
  | .lookup base key default =>
      .obj [("expr", .str "lookup"), ("base", base.toJson), ("key", key.toJson),
        ("default", default.toJson)]
  | .len base => .obj [("expr", .str "len"), ("base", base.toJson)]
  | .cap base => .obj [("expr", .str "cap"), ("base", base.toJson)]
  | .reslice base low high =>
      .obj [("expr", .str "reslice"), ("base", base.toJson), ("low", .ofNat low),
        ("high", .ofNat high)]
  | .boxed typeTag value =>
      .obj ([("expr", .str "box")] ++ Json.fieldOfOption "type_tag" .str typeTag
        ++ [("value", value.toJson)])
  | .isNil value => .obj [("expr", .str "is_nil"), ("value", value.toJson)]
  | .call callee args =>
      .obj [("expr", .str "call"), ("callee", .str callee), ("args", .arr (exprsToJson args))]

def exprsToJson : List Expr → List Json
  | [] => []
  | expr :: exprs => expr.toJson :: exprsToJson exprs

def fieldsToJson : List (String × Expr) → List Json
  | [] => []
  | (name, value) :: fields =>
      .obj [("name", .str name), ("value", value.toJson)] :: fieldsToJson fields

def entriesToJson : List (Expr × Expr) → List Json
  | [] => []
  | (key, value) :: entries =>
      .obj [("key", key.toJson), ("value", value.toJson)] :: entriesToJson entries

end

/-- How the parts of a place are read, given how those inside it are. -/
def Place.variants (place : Decoder Place) (expr : Decoder Expr) : List (String × Decoder Place) :=
  [("var", Record.decoder (Place.var <$> .required "name" .text)),
    ("field", Record.decoder (Place.field <$> .required "base" place <*> .required "field" .text)),
    ("deref", Record.decoder (Place.deref <$> .required "pointer" expr))]

/-- How the parts of an expression are read, given how those inside it are. -/
def Expr.variants (place : Decoder Place) (expr : Decoder Expr) : List (String × Decoder Expr) :=
  [("lit", Record.decoder (Expr.lit <$> .required "value" Primitive.decoder)),
    ("nil", .anything .nil),
    ("var", Record.decoder (Expr.var <$> .required "name" .text)),
    ("field", Record.decoder (Expr.field <$> .required "base" expr <*> .required "field" .text)),
    ("deref", Record.decoder (Expr.deref <$> .required "pointer" expr)),
    ("addr_of", Record.decoder (Expr.addrOf <$> .required "place" place)),
    ("new", Record.decoder (Expr.new <$> .required "init" expr <*> .required "site" .text)),
    ("composite", Record.decoder (Expr.composite <$> .required "type_name" .text
      <*> .withDefault "fields" (.list (.pair "name" "value" .text expr)) [])),
    ("slice_lit", Record.decoder (Expr.sliceLit <$> .withDefault "elems" (.list expr) []
      <*> .optional "capacity" .word)),
    ("make_slice", Record.decoder (Expr.makeSlice <$> .required "len" .word
      <*> .required "cap" .word <*> .required "zero" expr)),
    ("map_lit", Record.decoder (Expr.mapLit
      <$> .withDefault "entries" (.list (.pair "key" "value" expr expr)) [])),
    ("index", Record.decoder (Expr.index <$> .required "base" expr <*> .required "index" expr)),
    ("lookup", Record.decoder (Expr.lookup <$> .required "base" expr <*> .required "key" expr
      <*> .required "default" expr)),
    ("len", Record.decoder (Expr.len <$> .required "base" expr)),
    ("cap", Record.decoder (Expr.cap <$> .required "base" expr)),
    ("reslice", Record.decoder (Expr.reslice <$> .required "base" expr <*> .required "low" .word
      <*> .required "high" .word)),
    ("box", Record.decoder (Expr.boxed <$> .optional "type_tag" .text
      <*> .required "value" expr)),
    ("is_nil", Record.decoder (Expr.isNil <$> .required "value" expr)),
    ("call", Record.decoder (Expr.call <$> .required "callee" .text
      <*> .withDefault "args" (.list expr) []))]

mutual

/-- Reads a place of at most so many levels. -/
def Place.read : (levels : Nat) → Setting → Tree → Except ReadError Place
  | 0, _, tree => .error tree.misfit
  | levels + 1, setting, tree =>
      (Decoder.tagged "place" (Place.variants ⟨Place.read levels⟩ ⟨Expr.read levels⟩)).read
        setting tree

/-- Reads an expression of at most so many levels. -/
def Expr.read : (levels : Nat) → Setting → Tree → Except ReadError Expr
  | 0, _, tree => .error tree.misfit
  | levels + 1, setting, tree =>
      (Decoder.tagged "expr" (Expr.variants ⟨Place.read levels⟩ ⟨Expr.read levels⟩)).read
        setting tree

end

def Place.decoder : Decoder Place := ⟨Place.read maxDepth⟩

def Expr.decoder : Decoder Expr := ⟨Expr.read maxDepth⟩

namespace VarDecl

def toJsonFields (decl : VarDecl) : Fields :=
  [("name", .str decl.name), ("kind", decl.kind.toJson)]
    ++ Json.fieldOfOption "init" Expr.toJson decl.init
    ++ Json.fieldOfOption "site" .str decl.site

def toJson (decl : VarDecl) : Json := .obj decl.toJsonFields

def decoder : Decoder VarDecl :=
  Record.decoder (mk <$> .required "name" .text <*> .withDefault "kind" Kind.decoder .value
    <*> .optional "init" Expr.decoder <*> .optional "site" .text)

end VarDecl

namespace Param

def toJson (param : Param) : Json :=
  .obj [("name", .str param.name), ("kind", param.kind.toJson)]

def decoder : Decoder Param :=
  Record.decoder (mk <$> .required "name" .text <*> .withDefault "kind" Kind.decoder .value)

end Param

namespace ResultDecl

def toJson (result : ResultDecl) : Json :=
  .obj (Json.fieldOfOption "name" .str result.name ++ [("kind", result.kind.toJson)])

def decoder : Decoder ResultDecl :=
  Record.decoder (mk <$> .optional "name" .text <*> .withDefault "kind" Kind.decoder .value)

end ResultDecl

namespace Stmt

def toJson : Stmt → Json
  | declare decl => .obj (("stmt", .str "declare") :: decl.toJsonFields)
  | assign target value =>
      .obj [("stmt", .str "assign"), ("target", .str target), ("value", value.toJson)]
  | setField target name value =>
      .obj [("stmt", .str "set_field"), ("target", target.toJson), ("field", .str name),
        ("value", value.toJson)]
  | store pointer value =>
      .obj [("stmt", .str "store"), ("pointer", pointer.toJson), ("value", value.toJson)]
  | setIndex target index value =>
      .obj [("stmt", .str "set_index"), ("target", target.toJson), ("index", index.toJson),
        ("value", value.toJson)]
  | setKey target key value =>
      .obj [("stmt", .str "set_key"), ("target", target.toJson), ("key", key.toJson),
        ("value", value.toJson)]
  | append target values =>
      .obj [("stmt", .str "append"), ("target", target.toJson),
        ("values", .arr (exprsToJson values))]
  | call callee args =>
      .obj [("stmt", .str "call"), ("callee", .str callee), ("args", .arr (exprsToJson args))]
  | ret value => .obj (("stmt", .str "return") :: Json.fieldOfOption "value" Expr.toJson value)

def variants : List (String × Decoder Stmt) :=
  let expr := Expr.decoder
  let place := Place.decoder
  [("declare", declare <$> VarDecl.decoder),
    ("assign", Record.decoder (assign <$> .required "target" .text <*> .required "value" expr)),
    ("set_field", Record.decoder (setField <$> .required "target" place <*> .required "field" .text
      <*> .required "value" expr)),
    ("store", Record.decoder (store <$> .required "pointer" expr <*> .required "value" expr)),
    ("set_index", Record.decoder (setIndex <$> .required "target" place <*> .required "index" expr
      <*> .required "value" expr)),
    ("set_key", Record.decoder (setKey <$> .required "target" place <*> .required "key" expr
      <*> .required "value" expr)),
    ("append", Record.decoder (append <$> .required "target" place
      <*> .required "values" (.list expr))),
    ("call", Record.decoder (call <$> .required "callee" .text
      <*> .withDefault "args" (.list expr) [])),
    ("return", Record.decoder (ret <$> .optional "value" expr))]

def decoder : Decoder Stmt := .tagged "stmt" variants

end Stmt

namespace FunctionDef

def toJson (function : FunctionDef) : Json :=
  .obj ([("name", .str function.name), ("params", .ofList Param.toJson function.params)]
    ++ Json.fieldOfOption "result" ResultDecl.toJson function.result
    ++ [("body", .ofList Stmt.toJson function.body)])

def decoder : Decoder FunctionDef :=
  Record.decoder (mk <$> .required "name" .text
    <*> .withDefault "params" (.list Param.decoder) []
    <*> .optional "result" ResultDecl.decoder
    <*> .withDefault "body" (.list Stmt.decoder) [])

end FunctionDef

namespace Program

def toJson (program : Program) : Json :=
  .obj [("globals", .ofList VarDecl.toJson program.globals),
    ("functions", .ofList FunctionDef.toJson program.functions)]

def decoder : Decoder Program :=
  Record.decoder (mk <$> .withDefault "globals" (.list VarDecl.decoder) []
    <*> .withDefault "functions" (.list FunctionDef.decoder) [])

/-- The program a text describes. -/
def ofText (text : String) : Except ReadError Program := decoder.readText text

end Program

end ReferenceSemantics

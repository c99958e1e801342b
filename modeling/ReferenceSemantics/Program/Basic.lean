import ReferenceSemantics.Number.Binary64

set_option autoImplicit false

/-!
Programs: global declarations and functions over straight-line statements.

There are no branches and no loops. Every declaration, parameter, named result and `new`
expression is an allocation site with a name of its own.
-/

namespace ReferenceSemantics

abbrev SiteId := String

/-- Name of the root frame, which holds the globals. -/
def globalsFrame : String := "<globals>"

/-- A statement by its function and its index in the body, or a global by its index. -/
structure Location where
  function : String
  statement : Nat
deriving DecidableEq, Repr, Inhabited

def Location.text (location : Location) : String :=
  location.function ++ "#" ++ toString location.statement

/-- What a slot is declared to hold. -/
inductive Kind where
  | value
  | pointer
  | referenceHeader
  | keyValueHeader
  | interfaceBox
deriving DecidableEq, Repr, Inhabited

namespace Kind

def all : List Kind := [value, pointer, referenceHeader, keyValueHeader, interfaceBox]

def name : Kind → String
  | value => "value"
  | pointer => "pointer"
  | referenceHeader => "reference_header"
  | keyValueHeader => "key_value_header"
  | interfaceBox => "interface_box"

end Kind

inductive Primitive where
  | bool (value : Bool)
  | int (value : Int)
  | float (value : Binary64)
  | string (value : String)
deriving DecidableEq, Inhabited

namespace Primitive

/-- Equality of the values: that of numbers for doubles. -/
def same : Primitive → Primitive → Bool
  | bool a, bool b => a == b
  | int a, int b => a == b
  | float a, float b => a.same b
  | string a, string b => a == b
  | _, _ => false

/-- The zero value of the same type. -/
def zero : Primitive → Primitive
  | bool _ => bool false
  | int _ => int 0
  | float _ => float .zero
  | string _ => string ""

end Primitive

mutual

/-- An assignable location. A field of a pointer is the field of what it points to. -/
inductive Place where
  | var (name : String)
  | field (base : Place) (name : String)
  | deref (pointer : Expr)

inductive Expr where
  | lit (value : Primitive)
  | nil
  | var (name : String)
  | field (base : Expr) (name : String)
  | deref (pointer : Expr)
  | addrOf (place : Place)
  | new (init : Expr) (site : SiteId)
  | composite (typeName : String) (fields : List (String × Expr))
  | sliceLit (elems : List Expr) (capacity : Option Nat)
  | makeSlice (len cap : Nat) (zero : Expr)
  | mapLit (entries : List (Expr × Expr))
  | index (base index : Expr)
  | lookup (base key default : Expr)
  | len (base : Expr)
  | cap (base : Expr)
  | reslice (base : Expr) (low high : Nat)
  | boxed (typeTag : Option String) (value : Expr)
  | isNil (value : Expr)
  | call (callee : String) (args : List Expr)

end

instance : Inhabited Place := ⟨.var ""⟩

instance : Inhabited Expr := ⟨.nil⟩

/-- The variable a place starts from, unless it goes through a dereference. -/
def Place.rootVar : Place → Option String
  | var name => some name
  | field base _ => base.rootVar
  | deref _ => none

/-- Site of a named slot without a site of its own. -/
def defaultSite (function name : String) : SiteId := function ++ "." ++ name

/-- A declaration of a local or a global. -/
structure VarDecl where
  name : String
  kind : Kind
  init : Option Expr
  site : Option SiteId
deriving Inhabited

namespace VarDecl

def new (name : String) (kind : Kind) (init : Option Expr) : VarDecl := ⟨name, kind, init, none⟩

def withSite (decl : VarDecl) (site : SiteId) : VarDecl := { decl with site := some site }

def siteId (decl : VarDecl) (function : String) : SiteId :=
  decl.site.getD (defaultSite function decl.name)

end VarDecl

structure Param where
  name : String
  kind : Kind
deriving DecidableEq, Inhabited

/-- A declared result; a named one has a slot in the frame. -/
structure ResultDecl where
  name : Option String
  kind : Kind
deriving DecidableEq, Inhabited

inductive Stmt where
  | declare (decl : VarDecl)
  | assign (target : String) (value : Expr)
  | setField (target : Place) (name : String) (value : Expr)
  | store (pointer value : Expr)
  | setIndex (target : Place) (index value : Expr)
  | setKey (target : Place) (key value : Expr)
  | append (target : Place) (values : List Expr)
  | call (callee : String) (args : List Expr)
  | ret (value : Option Expr)
deriving Inhabited

structure FunctionDef where
  name : String
  params : List Param
  result : Option ResultDecl
  body : List Stmt
deriving Inhabited

namespace FunctionDef

def new (name : String) (params : List Param) (body : List Stmt) : FunctionDef :=
  ⟨name, params, none, body⟩

def withResult (function : FunctionDef) (name : Option String) (kind : Kind) : FunctionDef :=
  { function with result := some ⟨name, kind⟩ }

def namedResult (function : FunctionDef) : Option String := function.result.bind (·.name)

end FunctionDef

/-- The globals are initialised once, in order. -/
structure Program where
  globals : List VarDecl
  functions : List FunctionDef
deriving Inhabited

namespace Program

def empty : Program := ⟨[], []⟩

def withGlobal (program : Program) (decl : VarDecl) : Program :=
  { program with globals := program.globals ++ [decl] }

def withFunction (program : Program) (function : FunctionDef) : Program :=
  { program with functions := program.functions ++ [function] }

/-- The first function of the name. -/
def function? (program : Program) (name : String) : Option FunctionDef :=
  program.functions.find? (·.name == name)

end Program

end ReferenceSemantics

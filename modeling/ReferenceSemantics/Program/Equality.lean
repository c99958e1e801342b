import ReferenceSemantics.Program.Basic

set_option autoImplicit false

/-!
Equality of programs, part by part. Doubles are compared as numbers.
-/

namespace ReferenceSemantics

mutual

def Place.same : Place → Place → Bool
  | .var name, .var name' => name == name'
  | .field base name, .field base' name' => base.same base' && name == name'
  | .deref pointer, .deref pointer' => pointer.same pointer'
  | _, _ => false

def Expr.same : Expr → Expr → Bool
  | .lit value, .lit value' => value.same value'
  | .nil, .nil => true
  | .var name, .var name' => name == name'
  | .field base name, .field base' name' => base.same base' && name == name'
  | .deref pointer, .deref pointer' => pointer.same pointer'
  | .addrOf place, .addrOf place' => place.same place'
  | .new init site, .new init' site' => init.same init' && site == site'
  | .composite typeName fields, .composite typeName' fields' =>
      typeName == typeName' && sameFields fields fields'
  | .sliceLit elems capacity, .sliceLit elems' capacity' =>
      sameExprs elems elems' && capacity == capacity'
  | .makeSlice len cap zero, .makeSlice len' cap' zero' =>
      len == len' && cap == cap' && zero.same zero'
  | .mapLit entries, .mapLit entries' => sameEntries entries entries'
  | .index base index, .index base' index' => base.same base' && index.same index'
  | .lookup base key default, .lookup base' key' default' =>
      base.same base' && key.same key' && default.same default'
  | .len base, .len base' => base.same base'
  | .cap base, .cap base' => base.same base'
  | .reslice base low high, .reslice base' low' high' =>
      base.same base' && low == low' && high == high'
  | .boxed typeTag value, .boxed typeTag' value' => typeTag == typeTag' && value.same value'
  | .isNil value, .isNil value' => value.same value'
  | .call callee args, .call callee' args' => callee == callee' && sameExprs args args'
  | _, _ => false

def sameExprs : List Expr → List Expr → Bool
  | [], [] => true
  | expr :: exprs, expr' :: exprs' => expr.same expr' && sameExprs exprs exprs'
  | _, _ => false

def sameFields : List (String × Expr) → List (String × Expr) → Bool
  | [], [] => true
  | (name, value) :: fields, (name', value') :: fields' =>
      name == name' && value.same value' && sameFields fields fields'
  | _, _ => false

def sameEntries : List (Expr × Expr) → List (Expr × Expr) → Bool
  | [], [] => true
  | (key, value) :: entries, (key', value') :: entries' =>
      key.same key' && value.same value' && sameEntries entries entries'
  | _, _ => false

end

/-- Equality of optional parts. -/
def sameOption {α : Type} (same : α → α → Bool) : Option α → Option α → Bool
  | none, none => true
  | some a, some b => same a b
  | _, _ => false

/-- Equality of lists, item by item. -/
def sameList {α : Type} (same : α → α → Bool) : List α → List α → Bool
  | [], [] => true
  | a :: as, b :: bs => same a b && sameList same as bs
  | _, _ => false

def VarDecl.same (a b : VarDecl) : Bool :=
  a.name == b.name && a.kind == b.kind && sameOption Expr.same a.init b.init && a.site == b.site

def Stmt.same : Stmt → Stmt → Bool
  | declare decl, declare decl' => decl.same decl'
  | assign target value, assign target' value' => target == target' && value.same value'
  | setField target name value, setField target' name' value' =>
      target.same target' && name == name' && value.same value'
  | store pointer value, store pointer' value' => pointer.same pointer' && value.same value'
  | setIndex target index value, setIndex target' index' value' =>
      target.same target' && index.same index' && value.same value'
  | setKey target key value, setKey target' key' value' =>
      target.same target' && key.same key' && value.same value'
  | append target values, append target' values' => target.same target' && sameExprs values values'
  | call callee args, call callee' args' => callee == callee' && sameExprs args args'
  | ret value, ret value' => sameOption Expr.same value value'
  | _, _ => false

def FunctionDef.same (a b : FunctionDef) : Bool :=
  a.name == b.name && a.params == b.params && a.result == b.result && sameList Stmt.same a.body b.body

def Program.same (a b : Program) : Bool :=
  sameList VarDecl.same a.globals b.globals && sameList FunctionDef.same a.functions b.functions

end ReferenceSemantics

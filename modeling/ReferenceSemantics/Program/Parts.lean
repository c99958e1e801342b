import ReferenceSemantics.NameMap
import ReferenceSemantics.Program.Basic

set_option autoImplicit false

/-!
The expressions inside a program, and what they mention.

`parts` lists an expression before the expressions in it, in written order, at any depth and also
inside places. The calls and the `new` sites of a program are read off these lists.
-/

namespace ReferenceSemantics

mutual

def Place.parts : Place → List Expr
  | .var _ => []
  | .field base _ => base.parts
  | .deref pointer => pointer.parts

/-- The expression and every expression inside it. -/
def Expr.parts : Expr → List Expr
  | .lit value => [.lit value]
  | .nil => [.nil]
  | .var name => [.var name]
  | .field base name => .field base name :: base.parts
  | .deref pointer => .deref pointer :: pointer.parts
  | .addrOf place => .addrOf place :: place.parts
  | .new init site => .new init site :: init.parts
  | .composite typeName fields => .composite typeName fields :: partsOfFields fields
  | .sliceLit elems capacity => .sliceLit elems capacity :: partsOfExprs elems
  | .makeSlice len cap zero => .makeSlice len cap zero :: zero.parts
  | .mapLit entries => .mapLit entries :: partsOfEntries entries
  | .index base index => .index base index :: (base.parts ++ index.parts)
  | .lookup base key default =>
      .lookup base key default :: (base.parts ++ key.parts ++ default.parts)
  | .len base => .len base :: base.parts
  | .cap base => .cap base :: base.parts
  | .reslice base low high => .reslice base low high :: base.parts
  | .boxed typeTag value => .boxed typeTag value :: value.parts
  | .isNil value => .isNil value :: value.parts
  | .call callee args => .call callee args :: partsOfExprs args

def partsOfExprs : List Expr → List Expr
  | [] => []
  | expr :: exprs => expr.parts ++ partsOfExprs exprs

def partsOfFields : List (String × Expr) → List Expr
  | [] => []
  | (_, value) :: fields => value.parts ++ partsOfFields fields

def partsOfEntries : List (Expr × Expr) → List Expr
  | [] => []
  | (key, value) :: entries => key.parts ++ value.parts ++ partsOfEntries entries

end

def VarDecl.parts (decl : VarDecl) : List Expr := decl.init.elim [] Expr.parts

/-- Every expression in a statement. -/
def Stmt.parts : Stmt → List Expr
  | .declare decl => decl.parts
  | .assign _ value => value.parts
  | .setField target _ value => target.parts ++ value.parts
  | .store pointer value => pointer.parts ++ value.parts
  | .setIndex target index value => target.parts ++ index.parts ++ value.parts
  | .setKey target key value => target.parts ++ key.parts ++ value.parts
  | .append target values => target.parts ++ partsOfExprs values
  | .call _ args => partsOfExprs args
  | .ret value => value.elim [] Expr.parts

namespace Expr

def callee? : Expr → Option String
  | call callee _ => some callee
  | _ => none

def newSite? : Expr → Option SiteId
  | new _ site => some site
  | _ => none

end Expr

namespace Stmt

/-- The functions called anywhere in a statement. -/
def callees : Stmt → List String
  | call callee args => callee :: (partsOfExprs args).filterMap Expr.callee?
  | stmt => stmt.parts.filterMap Expr.callee?

/-- The slot a statement declares. -/
def declared? : Stmt → Option VarDecl
  | declare decl => some decl
  | _ => none

/-- The sites of a statement: that of its own slot, and those of its `new` expressions. -/
def sites (function : String) (stmt : Stmt) : List SiteId :=
  (stmt.declared?.map (·.siteId function)).toList ++ stmt.parts.filterMap Expr.newSite?

end Stmt

namespace FunctionDef

/-- The functions called in the body, each once, in order of their names. -/
def callees (function : FunctionDef) : List String :=
  (NameMap.ofList ((function.body.flatMap Stmt.callees).map (·, ()))).keys

/-- The names of the parameters and of the named result. -/
def slotNames (function : FunctionDef) : List String :=
  function.params.map (·.name) ++ function.namedResult.toList

def sites (function : FunctionDef) : List SiteId :=
  function.slotNames.map (defaultSite function.name)
    ++ function.body.flatMap (Stmt.sites function.name)

end FunctionDef

/-- Every allocation site of a program. -/
def Program.sites (program : Program) : List SiteId :=
  program.globals.flatMap (fun decl => decl.parts.filterMap Expr.newSite?)
    ++ program.functions.flatMap FunctionDef.sites

end ReferenceSemantics

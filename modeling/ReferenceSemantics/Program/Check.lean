import ReferenceSemantics.Program.CallGraph

set_option autoImplicit false

/-!
Well-formedness of programs: names, arities, sites, returns and the absence of recursion.

The rules are checked in the order of the program and the first violation is reported. Sites are
claimed as they are met and may be claimed once in the whole program. A statement sees the locals
declared before it and every global; the initialiser of a global sees the globals before it.
-/

namespace ReferenceSemantics

/-- What an expression may refer to, and where it stands. -/
structure Scope where
  functions : List FunctionDef
  globals : List String
  locals : List String
  location : Location

/-- A check claims sites as it goes. -/
abbrev Check := StateT (List SiteId) (Except WellFormednessError)

namespace Check

def refuse {α : Type} (error : WellFormednessError) : Check α := throw error

def claim (site : SiteId) : Check Unit := do
  if (← get).contains site then refuse (.duplicateSite site) else modify (site :: ·)

/-- The names in scope with one more; a name is declared once in a function. -/
def declare (names : List String) (name function : String) : Check (List String) :=
  if names.contains name then refuse (.duplicateVariable name function)
  else pure (name :: names)

end Check

namespace Scope

def checkName (scope : Scope) (name : String) : Check Unit :=
  if scope.locals.contains name || scope.globals.contains name then pure ()
  else Check.refuse (.unknownVariable name scope.location)

def checkCall (scope : Scope) (callee : String) (count : Nat) : Check Unit :=
  match scope.functions.find? (·.name == callee) with
  | none => Check.refuse (.unknownFunction callee scope.location)
  | some function =>
      if function.params.length = count then pure ()
      else Check.refuse (.arityMismatch callee function.params.length count scope.location)

/-- A slice literal has room for its elements, and spare room only beside an element. -/
def checkSlice (scope : Scope) (length capacity : Nat) : Check Unit :=
  if capacity < length then
    Check.refuse (.invalidSlice (.capacityBelowLength capacity length) scope.location)
  else if length < capacity ∧ length = 0 then
    Check.refuse (.invalidSlice .spareWithoutElement scope.location)
  else pure ()

/-- A box without a type tag holds the literal `nil`. -/
def checkBox (scope : Scope) : Option String → Expr → Check Unit
  | some _, _ | none, .nil => pure ()
  | none, _ => Check.refuse (.untypedBox scope.location)

mutual

def checkPlace (scope : Scope) : Place → Check Unit
  | .var name => scope.checkName name
  | .field base _ => scope.checkPlace base
  | .deref pointer => scope.checkExpr pointer

def checkExpr (scope : Scope) : Expr → Check Unit
  | .lit _ | .nil => pure ()
  | .var name => scope.checkName name
  | .field base _ | .len base | .cap base | .reslice base _ _ => scope.checkExpr base
  | .deref pointer => scope.checkExpr pointer
  | .addrOf place => scope.checkPlace place
  | .new init site => do
      Check.claim site
      scope.checkExpr init
  | .composite _ fields => scope.checkFields fields
  | .sliceLit elems capacity => do
      scope.checkSlice elems.length (capacity.getD elems.length)
      scope.checkExprs elems
  | .makeSlice len cap zero =>
      if cap < len then
        Check.refuse (.invalidSlice (.lengthAboveCapacity len cap) scope.location)
      else scope.checkExpr zero
  | .mapLit entries => scope.checkEntries entries
  | .index base index => do
      scope.checkExpr base
      scope.checkExpr index
  | .lookup base key default => do
      scope.checkExpr base
      scope.checkExpr key
      scope.checkExpr default
  | .boxed typeTag value => do
      scope.checkBox typeTag value
      scope.checkExpr value
  | .isNil value => scope.checkExpr value
  | .call callee args => do
      scope.checkCall callee args.length
      scope.checkExprs args

def checkExprs (scope : Scope) : List Expr → Check Unit
  | [] => pure ()
  | expr :: exprs => do
      scope.checkExpr expr
      scope.checkExprs exprs

def checkFields (scope : Scope) : List (String × Expr) → Check Unit
  | [] => pure ()
  | (_, value) :: fields => do
      scope.checkExpr value
      scope.checkFields fields

def checkEntries (scope : Scope) : List (Expr × Expr) → Check Unit
  | [] => pure ()
  | (key, value) :: entries => do
      scope.checkExpr key
      scope.checkExpr value
      scope.checkEntries entries

end

def checkInit (scope : Scope) (decl : VarDecl) : Check Unit :=
  decl.init.elim (pure ()) scope.checkExpr

/-- A function with an unnamed result returns a value everywhere, one without a result nowhere. -/
def checkReturn (scope : Scope) (function : FunctionDef) (value : Option Expr) : Check Unit :=
  match function.result, value with
  | none, some _ | some ⟨none, _⟩, none =>
      Check.refuse (.resultMismatch function.name scope.location)
  | _, _ => pure ()

/-- Check a statement of a function, and give the locals that are declared after it. -/
def checkStmt (scope : Scope) (function : FunctionDef) : Stmt → Check (List String)
  | .declare decl => do
      scope.checkInit decl
      let locals ← Check.declare scope.locals decl.name function.name
      Check.claim (decl.siteId function.name)
      return locals
  | .assign target value => do
      scope.checkName target
      scope.checkExpr value
      return scope.locals
  | .setField target _ value => do
      scope.checkPlace target
      scope.checkExpr value
      return scope.locals
  | .store pointer value => do
      scope.checkExpr pointer
      scope.checkExpr value
      return scope.locals
  | .setIndex target index value => do
      scope.checkPlace target
      scope.checkExpr index
      scope.checkExpr value
      return scope.locals
  | .setKey target key value => do
      scope.checkPlace target
      scope.checkExpr key
      scope.checkExpr value
      return scope.locals
  | .append target values => do
      scope.checkPlace target
      scope.checkExprs values
      return scope.locals
  | .call callee args => do
      scope.checkCall callee args.length
      scope.checkExprs args
      return scope.locals
  | .ret value => do
      scope.checkReturn function value
      value.elim (pure ()) scope.checkExpr
      return scope.locals

end Scope

namespace FunctionDef

/-- Declare the parameters and the named result. -/
def checkSlots (function : FunctionDef) : List String → List String → Check (List String)
  | locals, [] => pure locals
  | locals, name :: names => do
      let locals ← Check.declare locals name function.name
      Check.claim (defaultSite function.name name)
      function.checkSlots locals names

/-- Check the statements from an index on. -/
def checkBody (function : FunctionDef) (functions : List FunctionDef) (globals : List String) :
    (locals : List String) → (index : Nat) → List Stmt → Check Unit
  | _, _, [] => pure ()
  | locals, index, stmt :: stmts => do
      let scope : Scope := ⟨functions, globals, locals, ⟨function.name, index⟩⟩
      let locals ← scope.checkStmt function stmt
      function.checkBody functions globals locals (index + 1) stmts

def endsWithValue (function : FunctionDef) : Bool :=
  match function.body.getLast? with
  | some (.ret (some _)) => true
  | _ => false

/-- A function with an unnamed result ends with a `return` of a value. -/
def checkEnd (function : FunctionDef) : Check Unit :=
  match function.result with
  | some ⟨none, _⟩ =>
      if function.endsWithValue then pure () else Check.refuse (.missingReturn function.name)
  | _ => pure ()

def check (function : FunctionDef) (functions : List FunctionDef) (globals : List String) :
    Check Unit := do
  let locals ← function.checkSlots [] function.slotNames
  function.checkBody functions globals locals 0 function.body
  function.checkEnd

end FunctionDef

namespace Program

/-- Check the globals from an index on, and give the names of all of them. -/
def checkGlobals (functions : List FunctionDef) :
    (names : List String) → (index : Nat) → List VarDecl → Check (List String)
  | names, _, [] => pure names
  | names, index, decl :: decls => do
      let scope : Scope := ⟨functions, [], names, ⟨globalsFrame, index⟩⟩
      scope.checkInit decl
      let names ← Check.declare names decl.name globalsFrame
      checkGlobals functions names (index + 1) decls

/-- The first name that occurs earlier in a list. -/
def firstRepeated? (seen : List String) : List String → Option String
  | [] => none
  | name :: names =>
      if seen.contains name then some name else firstRepeated? (name :: seen) names

def checkEntry (program : Program) (entry : String) : Except WellFormednessError Unit :=
  match program.function? entry with
  | none => .error (.missingEntry entry)
  | some function =>
      if function.params.isEmpty then .ok () else .error (.entryTakesParameters entry)

def checkDefinitions (program : Program) : Check Unit := do
  let globals ← checkGlobals program.functions [] 0 program.globals
  program.functions.forM fun function => function.check program.functions globals

/-- Whether a program may run from an entry function. -/
def check (program : Program) (entry : String) : Except WellFormednessError Unit := do
  if let some name := firstRepeated? [] (program.functions.map (·.name)) then
    throw (.duplicateFunction name)
  program.checkEntry entry
  let _ ← program.checkDefinitions.run []
  program.callGraph.check

end Program

end ReferenceSemantics

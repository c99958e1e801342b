import ReferenceSemantics.Escape.Basic

set_option autoImplicit false

/-!
The rules of the escape classification.

A name in a function designates the local declared before it, or else a global. A location escapes
when its address may be returned, be left in a named result, be stored in a global, through a
pointer or in a block or table, be passed to a call that may retain it, or be held by a location
that escapes. Globals only ever hold addresses of locations that escape.

The rules come upon every site of the program on their way, and note it. What they note they never
read.
-/

namespace ReferenceSemantics

/-- Where a rule is applied: the names visible there, and the parameters known to leak. -/
structure EscapeScope where
  mode : EscapeMode
  /-- The facts of the rounds before. -/
  known : EscapeFacts
  function : String
  locals : List (String × SiteId × Kind)

/-- A rule gives a result, adds to the facts, and notes sites. -/
def EscapeRule (α : Type) : Type := EscapeFacts → (α × EscapeFacts) × List SiteId

namespace EscapeScope

def site? (scope : EscapeScope) (name : String) : Option Loc :=
  (scope.locals.lookup name).map fun (site, _) => .site site

def kind? (scope : EscapeScope) (name : String) : Option Kind :=
  (scope.locals.lookup name).map (·.2)

def bind (scope : EscapeScope) (name : String) (site : SiteId) (kind : Kind) : EscapeScope :=
  { scope with locals := (name, site, kind) :: scope.locals }

/-- A call may keep the argument for this parameter. -/
def retains (scope : EscapeScope) (callee : String) (param : Nat) : Bool :=
  match scope.mode with
  | .conservative => true
  | .interprocedural => scope.known.leaks callee param

/-- The place is a local composite, whose fields are part of its slot. -/
def inlineLocal? (scope : EscapeScope) : Place → Option Loc
  | .var name => if scope.kind? name = some .value then scope.site? name else none
  | _ => none

end EscapeScope

namespace EscapeRule

instance : Monad EscapeRule where
  pure value facts := ((value, facts), [])
  bind first next facts :=
    let started := first facts
    let done := next started.1.1 started.1.2
    (done.1, started.2 ++ done.2)

instance : LawfulMonad EscapeRule :=
  .mk' EscapeRule
    (fun _ => funext fun _ => Prod.ext rfl (List.append_nil _))
    (fun _ _ => rfl)
    (fun _ _ _ => funext fun _ => Prod.ext rfl (List.append_assoc ..))

instance : MonadStateOf EscapeFacts EscapeRule where
  get facts := ((facts, facts), [])
  set facts _ := (((), facts), [])
  modifyGet change facts := (change facts, [])

variable {α : Type}

/-- The result of a rule, and the facts after it. -/
def run (rule : EscapeRule α) (facts : EscapeFacts) : α × EscapeFacts := (rule facts).1

/-- The sites that a rule comes upon, in this order. -/
def visited (rule : EscapeRule α) (facts : EscapeFacts) : List SiteId := (rule facts).2

def visit (site : SiteId) : EscapeRule Unit := fun facts => (((), facts), [site])

def hold (holder : Loc) (held : List Loc) : EscapeRule Unit := modify (·.addHolds holder held)

def escape (locs : List Loc) (reason : EscapeReason) : EscapeRule Unit :=
  modify (·.escape locs reason)

end EscapeRule

namespace EscapeScope

open EscapeRule

/-- What is passed for a parameter escapes if the call may keep it. -/
def retain (scope : EscapeScope) (callee : String) (param : Nat) (locs : List Loc) :
    EscapeRule Unit :=
  if scope.retains callee param then escape locs .passedToCall else pure ()

mutual

/-- The locations a place may designate. -/
def placeAddrs (scope : EscapeScope) : Place → EscapeRule (List Loc)
  | .var name => pure (scope.site? name).toList
  | .field base _ => do
      let addrs ← scope.placeAddrs base
      return addrs ++ (← get).contents addrs
  | .deref pointer => scope.addrs pointer

/-- The locations whose address the value of an expression may carry. -/
def addrs (scope : EscapeScope) : Expr → EscapeRule (List Loc)
  | .lit _ | .nil => pure []
  | .var name => return (scope.site? name).elim [] (← get).heldBy
  | .field base _ => do
      let addrs ← scope.addrs base
      return addrs ++ (← get).contents addrs
  | .deref pointer => do
      let addrs ← scope.addrs pointer
      return (← get).contents addrs
  | .addrOf place => scope.placeAddrs place
  | .new init site => do
      visit site
      hold (.site site) (← scope.addrs init)
      return [.site site]
  | .composite _ fields => scope.fieldsAddrs fields
  | .sliceLit elems _ => do
      scope.storeOutside elems
      return []
  | .makeSlice _ _ zero => do
      escape (← scope.addrs zero) .storedOutside
      return []
  | .mapLit entries => do
      scope.storeEntries entries
      return []
  | .index base index => do
      let _ ← scope.addrs base
      let _ ← scope.addrs index
      return []
  | .lookup base key default => do
      let _ ← scope.addrs base
      let _ ← scope.addrs key
      scope.addrs default
  | .len base | .cap base | .reslice base _ _ => do
      let _ ← scope.addrs base
      return []
  | .boxed _ value => scope.addrs value
  | .isNil value => do
      let _ ← scope.addrs value
      return []
  | .call callee args => do
      let passed ← scope.passArgs callee 0 args
      return (← get).closure passed

def fieldsAddrs (scope : EscapeScope) : List (String × Expr) → EscapeRule (List Loc)
  | [] => pure []
  | (_, value) :: fields => do
      let addrs ← scope.addrs value
      return addrs ++ (← scope.fieldsAddrs fields)

/-- Values stored into a block. -/
def storeOutside (scope : EscapeScope) : List Expr → EscapeRule Unit
  | [] => pure ()
  | value :: values => do
      escape (← scope.addrs value) .storedOutside
      scope.storeOutside values

def storeEntries (scope : EscapeScope) : List (Expr × Expr) → EscapeRule Unit
  | [] => pure ()
  | (key, value) :: entries => do
      let ofKey ← scope.addrs key
      let ofValue ← scope.addrs value
      escape (ofKey ++ ofValue) .storedOutside
      scope.storeEntries entries

/-- Arguments of a call; all that they carry. -/
def passArgs (scope : EscapeScope) (callee : String) :
    (param : Nat) → List Expr → EscapeRule (List Loc)
  | _, [] => pure []
  | param, arg :: args => do
      let addrs ← scope.addrs arg
      scope.retain callee param addrs
      return addrs ++ (← scope.passArgs callee (param + 1) args)

end

def statement (scope : EscapeScope) : Stmt → EscapeRule Unit
  | .declare decl => do
      visit (decl.siteId scope.function)
      match decl.init with
      | none => pure ()
      | some init => hold (.site (decl.siteId scope.function)) (← scope.addrs init)
  | .assign target value => do
      let addrs ← scope.addrs value
      match scope.site? target with
      | some site => hold site addrs
      | none => escape addrs .storedOutside
  | .setField target _ value => do
      let addrs ← scope.addrs value
      match scope.inlineLocal? target with
      | some site => hold site addrs
      | none =>
          let _ ← scope.placeAddrs target
          escape addrs .storedOutside
  | .store pointer value => do
      let _ ← scope.addrs pointer
      escape (← scope.addrs value) .storedOutside
  | .setIndex target index value => do
      let _ ← scope.placeAddrs target
      let _ ← scope.addrs index
      escape (← scope.addrs value) .storedOutside
  | .setKey target key value => do
      let _ ← scope.placeAddrs target
      let ofKey ← scope.addrs key
      let ofValue ← scope.addrs value
      escape (ofKey ++ ofValue) .storedOutside
  | .append target values => do
      let _ ← scope.placeAddrs target
      scope.storeOutside values
  | .call callee args => do
      let _ ← scope.passArgs callee 0 args
  | .ret value =>
      match value with
      | none => pure ()
      | some value => do escape (← scope.addrs value) .returned

/-- A local is bound from its declaration on. -/
def afterStatement (scope : EscapeScope) (stmt : Stmt) : EscapeScope :=
  match stmt.declared? with
  | some decl => scope.bind decl.name (decl.siteId scope.function) decl.kind
  | none => scope

def body (scope : EscapeScope) : List Stmt → EscapeRule Unit
  | [] => pure ()
  | stmt :: stmts => do
      scope.statement stmt
      (scope.afterStatement stmt).body stmts

end EscapeScope

namespace FunctionDef

open EscapeRule

/-- The slots of the parameters and of the named result. -/
def slots (function : FunctionDef) : List (String × Kind) :=
  let result := function.result.bind fun result => result.name.map (·, result.kind)
  function.params.map (fun param => (param.name, param.kind)) ++ result.toList

/-- The parameters and the named result of a function are bound in its body. -/
def escapeScope (function : FunctionDef) (mode : EscapeMode) (known : EscapeFacts) :
    EscapeScope :=
  function.slots.foldl
    (fun scope slot => scope.bind slot.1 (defaultSite function.name slot.1) slot.2)
    ⟨mode, known, function.name, []⟩

/-- A parameter holds its content, and the content holds itself. -/
def holdParams (function : FunctionDef) : (index : Nat) → List Param → EscapeRule Unit
  | _, [] => pure ()
  | index, param :: params => do
      let content := Loc.content function.name index
      visit (defaultSite function.name param.name)
      hold (.site (defaultSite function.name param.name)) [content]
      hold content [content]
      function.holdParams (index + 1) params

/-- What a named result holds is handed to the caller. -/
def escapeResult (function : FunctionDef) : EscapeRule Unit := do
  if let some name := function.namedResult then
    visit (defaultSite function.name name)
    escape ((← get).heldBy (.site (defaultSite function.name name))) .returned

def escapeRules (function : FunctionDef) (mode : EscapeMode) (known : EscapeFacts) :
    EscapeRule Unit := do
  function.holdParams 0 function.params
  function.escapeResult
  (function.escapeScope mode known).body function.body

end FunctionDef

namespace Program

open EscapeRule

/-- The address of what a global is initialised with escapes. -/
def escapeGlobal (mode : EscapeMode) (known : EscapeFacts) (decl : VarDecl) : EscapeRule Unit := do
  if let some init := decl.init then
    let scope : EscapeScope := ⟨mode, known, globalsFrame, []⟩
    escape (← scope.addrs init) .storedOutside

/-- What a location that escapes holds escapes too. -/
def escapeHeld : EscapeRule Unit := do
  let facts ← get
  escape (facts.closure (facts.escaped.map (·.1))) .heldByEscaping

/-- Apply every rule once. -/
def escapeRules (program : Program) (mode : EscapeMode) (known : EscapeFacts) :
    EscapeRule Unit := do
  program.globals.forM (escapeGlobal mode known)
  program.functions.forM fun function => function.escapeRules mode known
  escapeHeld

end Program

end ReferenceSemantics

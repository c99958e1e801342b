import ReferenceSemantics.Run.Evaluate

set_option autoImplicit false

/-!
Execution of statements, bodies and calls.

A call pushes a frame, binds its parameters and its named result, runs the body and pops the frame
again; arguments are copies. The nesting of calls is bounded from outside: a program without
recursion never reaches the bound.
-/

namespace ReferenceSemantics

/-- What follows a statement. -/
inductive Flow where
  | next
  | returned (value : Option Value)

/-- Go on after a statement, unless it returned. -/
def Flow.resume (flow : Flow) (rest : Run (Option Value)) : Run (Option Value) :=
  match flow with
  | next => rest
  | returned value => pure value

namespace Model

open Run

/-- Bind the parameters to the arguments. -/
def bindParams (model : Model) (function : String) (location : Location) :
    List Param → List Value → Run Unit
  | param :: params, arg :: args => do
      expectKind location param.kind arg
      model.bind param.name param.kind (defaultSite function param.name) arg
      model.bindParams function location params args
  | _, _ => pure ()

def bindResult (model : Model) (function : FunctionDef) : Run Unit := do
  if let some ⟨some name, kind⟩ := function.result then
    model.bind name kind (defaultSite function.name name) (.zero kind)

/-- Bind the parameters and the named result. -/
def bindSlots (model : Model) (function : FunctionDef) (args : List Value)
    (location : Location) : Run Unit := do
  model.bindParams function.name location function.params args
  model.bindResult function

/-- Push the frame of a call and bind its slots. -/
def enter (model : Model) (function : FunctionDef) (args : List Value)
    (callSite : Option Location) : Run Unit := do
  pushFrame function.name callSite
  transition function.name .entered
  model.bindSlots function args (callSite.getD ⟨function.name, 0⟩)
  transition function.name .executing

end Model

open Run in
/-- A returned value goes into the slot of a named result. -/
def FunctionDef.deliver (function : FunctionDef) (location : Location) (value : Value) :
    Run (Option Value) :=
  match function.namedResult with
  | none => return some value
  | some name => do
      store location (← lookup name location) value
      return none

open Run in
/-- The result of a call: the content of a named result, or the returned value. -/
def FunctionDef.copyOut (function : FunctionDef) (returned : Option Value) : Run (Option Value) :=
  match function.namedResult with
  | none => pure returned
  | some name => do
      let location : Location := ⟨function.name, function.body.length⟩
      let ref ← lookup name location
      some <$> load location ref

open Run in
/-- Take the result of a call and pop its frame. -/
def FunctionDef.leave (function : FunctionDef) (returned : Option Value) :
    Run (Option Value) := do
  transition function.name .returning
  let result ← function.copyOut returned
  popFrame
  transition function.name .exited
  return result

/-- What an append works on: the header in its place, and the new values. -/
structure AppendOperands where
  ref : SlotRef
  header : Value
  values : List Value

namespace Evaluator

open Run

/-- Evaluate a value for the place of another, and put it there. -/
def overwrite (evaluator : Evaluator) (location : Location) (ref : SlotRef) (kind : Kind)
    (value : Expr) : Run Unit := do
  let value ← evaluator.evaluateFor location kind value
  expectKind location kind value
  store location ref value

/-- Evaluate a value for a place of a kind, if one is known. -/
def evaluateElement (evaluator : Evaluator) (location : Location) (kind : Option Kind)
    (expr : Expr) : Run Value :=
  match kind with
  | some kind => evaluator.evaluateFor location kind expr
  | none => evaluator.evaluate location expr

def evaluateElements (evaluator : Evaluator) (location : Location) (kind : Option Kind) :
    List Expr → Run (List Value)
  | [] => pure []
  | expr :: exprs => do
      let value ← evaluator.evaluateElement location kind expr
      let values ← evaluator.evaluateElements location kind exprs
      return value :: values

/-- Evaluate the target of an append, and after it the new values. -/
def appendOperands (evaluator : Evaluator) (location : Location) (target : Place)
    (values : List Expr) : Run AppendOperands := do
  let ref ← evaluator.placeRef location target
  let header ← load location ref
  let kind ← read location (·.elementKind header)
  return ⟨ref, header, ← evaluator.evaluateElements location kind values⟩

def append (evaluator : Evaluator) (location : Location) (target : Place)
    (values : List Expr) : Run Unit := do
  let ⟨ref, header, values⟩ ← evaluator.appendOperands location target values
  let grown ← update location (·.append header values)
  recordMove header grown
  store location ref grown

def returnValue (evaluator : Evaluator) (function : FunctionDef) (location : Location)
    (value : Expr) : Run (Option Value) := do
  let kind := (function.result.map (·.kind)).getD .value
  let value ← evaluator.evaluateFor location kind value
  expectKind location kind value
  function.deliver location value

def execute (evaluator : Evaluator) (function : FunctionDef) (location : Location) :
    Stmt → Run Flow
  | .declare decl => do
      let value ← evaluator.evaluateDecl location decl
      evaluator.model.bind decl.name decl.kind (decl.siteId function.name) value
      return .next
  | .assign target value => do
      let ref ← lookup target location
      let slot ← read location (·.slot ref.address)
      evaluator.overwrite location ref slot.kind value
      return .next
  | .setField target name value => do
      let base ← evaluator.placeRef location target
      let ref ← fieldRef location base name
      let old ← load location ref
      evaluator.overwrite location ref old.kind value
      return .next
  | .store pointer value => do
      let pointer ← evaluator.evaluate location pointer
      let ref ← dereference location pointer
      let old ← load location ref
      evaluator.overwrite location ref old.kind value
      return .next
  | .setIndex target index value => do
      let header ← load location (← evaluator.placeRef location target)
      let index ← asInt location (← evaluator.evaluate location index)
      let old ← read location (·.element header index)
      let value ← evaluator.evaluateFor location old.kind value
      write location (·.setElement header index value)
      return .next
  | .setKey target key value => do
      let header ← load location (← evaluator.placeRef location target)
      let key ← evaluator.evaluate location key
      let kind ← read location (·.tableValueKind header key)
      let value ← evaluator.evaluateElement location kind value
      write location (·.tableInsert header key value)
      return .next
  | .append target values => do
      evaluator.append location target values
      return .next
  | .call callee args => do
      let _ ← evaluator.call location callee args
      return .next
  | .ret none => return .returned none
  | .ret (some value) => .returned <$> evaluator.returnValue function location value

/-- Execute the statements from an index on, up to a return. -/
def executeFrom (evaluator : Evaluator) (function : FunctionDef) :
    (index : Nat) → List Stmt → Run (Option Value)
  | _, [] => pure none
  | index, stmt :: stmts => do
      let location : Location := ⟨function.name, index⟩
      checkpoint location
      let flow ← evaluator.execute function location stmt
      flow.resume (evaluator.executeFrom function (index + 1) stmts)

def executeBody (evaluator : Evaluator) (function : FunctionDef) : Run (Option Value) :=
  evaluator.executeFrom function 0 function.body

/-- Run a function in a frame of its own. -/
def perform (evaluator : Evaluator) (function : FunctionDef) (args : List Value)
    (callSite : Location) : Run (Option Value) := do
  evaluator.model.enter function args (some callSite)
  let returned ← evaluator.executeBody function
  function.leave returned

end Evaluator

namespace Model

open Run

/-- Run a call on evaluated arguments, with at most so many calls nested in one another. -/
def invoke (model : Model) : (depth : Nat) → FunctionDef → List Value → Location →
    Run (Option Value)
  | 0, _, _, _ => throw .callDepthExceeded
  | depth + 1, function, args, callSite =>
      Evaluator.perform ⟨model, model.invoke depth⟩ function args callSite

/-- Nesting that is allowed beyond what a program without recursion can reach. -/
def recursionAllowance : Nat := 10000

/-- Without recursion no function is active twice. -/
def maxCallDepth (model : Model) : Nat := model.functions.length + recursionAllowance

def evaluator (model : Model) : Evaluator := ⟨model, model.invoke model.maxCallDepth⟩

end Model

namespace Run

/-- The entry function's frame stands on the root frame and was not called from anywhere. -/
def entryBindings (storage : Storage) : List (String × Value) :=
  match storage.frame? 1 with
  | some ⟨_, none, _, _⟩ => storage.frameValues 1
  | _ => []

/-- The values of the globals and of the entry frame; a local shadows a global. -/
def captured (storage : Storage) : NameMap Value :=
  NameMap.ofList (storage.frameValues 0 ++ entryBindings storage)

def capture : Run Unit :=
  modify fun machine => { machine with finalValues := captured machine.storage }

/-- Mark what the live frames no longer lead to. -/
def sweep : Run Unit := do
  let unreachable ← allocate Storage.sweep
  if 0 < unreachable then record (.sweep unreachable) else pure ()

end Run

namespace Evaluator

open Run

/-- Create the slot of a global in the root frame. -/
def declareGlobal (evaluator : Evaluator) (location : Location) (decl : VarDecl) : Run Unit := do
  let value ← evaluator.evaluateDecl location decl
  let ref ← allocate (·.declare decl.name decl.kind none .stack value)
  record (.alloc none ref.address .stack)

/-- Initialise the globals from an index on. -/
def declareGlobals (evaluator : Evaluator) : (index : Nat) → List VarDecl → Run Unit
  | _, [] => pure ()
  | index, decl :: decls => do
      let location : Location := ⟨globalsFrame, index⟩
      checkpoint location
      evaluator.declareGlobal location decl
      evaluator.declareGlobals (index + 1) decls

/-- Run the entry function. The final values are captured while its frame is still there. -/
def runEntry (evaluator : Evaluator) (entry : FunctionDef) : Run (Option Value) := do
  evaluator.model.enter entry [] none
  let returned ← evaluator.executeBody entry
  capture
  sweep
  entry.leave returned

/-- Initialise the globals, then run the entry function. -/
def run (evaluator : Evaluator) : Run Unit := do
  let model := evaluator.model
  evaluator.declareGlobals 0 model.globals
  let entry ← model.function model.config.entry ⟨model.config.entry, 0⟩
  let _ ← evaluator.runEntry entry

end Evaluator

def Model.execute (model : Model) : Run Unit := model.evaluator.run

end ReferenceSemantics

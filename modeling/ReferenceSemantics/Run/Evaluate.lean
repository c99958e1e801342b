import ReferenceSemantics.Run.Machine

set_option autoImplicit false

/-!
Evaluation of expressions and places.

An expression evaluates to a value of its own: reading a variable copies what its slot holds. A
place resolves to the reference of a slot or of a field in one. How a call runs is given from
outside, so that evaluation follows the structure of the expression.
-/

namespace ReferenceSemantics

/-- What evaluation needs: the model, and the run of a function on evaluated arguments. -/
structure Evaluator where
  model : Model
  invoke : FunctionDef → List Value → (callSite : Location) → Run (Option Value)

/-- An expression where a kind is expected: `nil` is the zero value of that kind, and a concrete
value for a box is boxed with its type. -/
def flowInto (location : Location) (kind : Kind) (expr : Expr) (evaluated : Run Value) :
    Run Value :=
  match expr with
  | .nil =>
      if kind = .value then Run.mismatch location .nilAsValue else pure (.zero kind)
  | _ => do
      let value ← evaluated
      return if kind = .interfaceBox then value.inBox else value

/-- The value to select a field from: what a pointer points to, or the value itself. -/
def followPointer (location : Location) (value : Value) : Run Value := do
  if value.isPointer then
    Run.load location (← Run.dereference location value)
  else return value

def selectField (location : Location) (name : String) (value : Value) : Run Value :=
  match value with
  | .composite _ fields =>
      match fields.lookup name with
      | some inner => pure inner
      | none => Run.fail (.missingField [name] location)
  | other => Run.mismatch location (.notComposite other.shape)

/-- The composite to resolve a field in, when a value was found at `base`: what a pointer points
to, or `base`. -/
def fieldHolder (location : Location) (base : SlotRef) (found : Value) : Run SlotRef :=
  match found with
  | .pointer target => Run.dereference location (.pointer target)
  | .composite _ _ => return base
  | other => Run.mismatch location (.notComposite other.shape)

/-- A field of the composite that was found at `holder`. -/
def fieldOf (location : Location) (holder : SlotRef) (name : String) (found : Value) :
    Run SlotRef :=
  match found with
  | .composite _ _ => do
      let _ ← Run.load location (holder.field name)
      return holder.field name
  | other => Run.mismatch location (.notComposite other.shape)

/-- The field of the composite at `base`, following one pointer. -/
def fieldRef (location : Location) (base : SlotRef) (name : String) : Run SlotRef := do
  let holder ← fieldHolder location base (← Run.load location base)
  fieldOf location holder name (← Run.load location holder)

def asInt (location : Location) (value : Value) : Run Int :=
  match value.asInt? with
  | some n => pure n
  | none => Run.mismatch location (.notInt value.shape)

def checkArgumentCount (location : Location) (function : FunctionDef) (count : Nat) : Run Unit :=
  if function.params.length = count then pure ()
  else Run.mismatch location (.argumentCount function.params.length count)

/-- What a call is worth as an expression. -/
def expectResult (location : Location) (callee : String) (result : Option Value) : Run Value :=
  match result with
  | some value => pure value
  | none => Run.mismatch location (.noResult callee)

/-- A length as an integer of 64 bits with a sign. -/
def lengthValue (n : Nat) : Value := .int (Int.bmod n wordEnd)

namespace Evaluator

open Run

/-- A new slot without a name of its own, and a pointer to it. -/
def allocateNew (evaluator : Evaluator) (site : SiteId) (value : Value) : Run Value := do
  let placement := evaluator.model.placement site
  let ref ← allocate (·.allocate site value.kind (some site) placement value)
  record (.alloc (some site) ref.address placement)
  return .pointerTo ref

/-- A new block of the elements, with spare cells up to the capacity. -/
def allocateSlice (cells : List Value) (capacity : Option Nat) : Run Value := do
  let zero := (cells.head?.map Value.zeroLike).getD (.int 0)
  let filled := Storage.padCells cells (capacity.getD cells.length) zero
  let header ← allocate (·.allocBlock filled cells.length zero)
  recordBehind header
  return header

mutual

def placeRef (evaluator : Evaluator) (location : Location) : Place → Run SlotRef
  | .var name => lookup name location
  | .field base name => do
      let base ← evaluator.placeRef location base
      fieldRef location base name
  | .deref pointer => do
      let pointer ← evaluator.evaluate location pointer
      dereference location pointer

def evaluate (evaluator : Evaluator) (location : Location) : Expr → Run Value
  | .lit value => pure (.primitive value)
  | .nil => pure .nilPointer
  | .var name => do
      let ref ← lookup name location
      load location ref
  | .field base name => do
      let value ← evaluator.evaluate location base
      let holder ← followPointer location value
      selectField location name holder
  | .deref pointer => do
      let pointer ← evaluator.evaluate location pointer
      load location (← dereference location pointer)
  | .addrOf place => do
      let ref ← evaluator.placeRef location place
      return .pointerTo ref
  | .new init site => do
      let value ← evaluator.evaluate location init
      evaluator.allocateNew site value
  | .composite typeName fields => do
      let values ← evaluator.evaluateFields location fields
      return .composite typeName values
  | .sliceLit elems capacity => do
      let cells ← evaluator.evaluateAll location elems
      allocateSlice cells capacity
  | .makeSlice len cap zero =>
      if cap < len then fail (.fault (.makeLength len cap) location)
      else do
        let zero ← evaluator.evaluate location zero
        let header ← allocate (·.allocBlock (List.replicate cap zero) len zero)
        recordBehind header
        return header
  | .mapLit entries => do
      let entries ← evaluator.evaluateEntries location entries
      let header ← allocate (·.allocTable entries)
      recordBehind header
      return header
  | .index base index => do
      let header ← evaluator.evaluate location base
      let index ← asInt location (← evaluator.evaluate location index)
      read location (·.element header index)
  | .lookup base key default => do
      let header ← evaluator.evaluate location base
      let key ← evaluator.evaluate location key
      let found ← read location (·.tableGet header key)
      found.elim (evaluator.evaluate location default) pure
  | .len base => do
      let value ← evaluator.evaluate location base
      return lengthValue (← read location (·.headerLen value))
  | .cap base => do
      let value ← evaluator.evaluate location base
      return lengthValue (← read location fun _ => Storage.headerCap value)
  | .reslice base low high => do
      let header ← evaluator.evaluate location base
      read location fun _ => Storage.reslice header low high
  | .boxed typeTag value => do
      let value ← evaluator.evaluate location value
      return value.tagged typeTag
  | .isNil value => do
      let value ← evaluator.evaluate location value
      return .bool value.isEmpty
  | .call callee args => do
      let function ← evaluator.model.function callee location
      checkArgumentCount location function args.length
      let values ← evaluator.evaluateArgs location function.params args
      expectResult location callee (← evaluator.invoke function values location)

def evaluateAll (evaluator : Evaluator) (location : Location) : List Expr → Run (List Value)
  | [] => pure []
  | expr :: exprs => do
      let value ← evaluator.evaluate location expr
      let values ← evaluator.evaluateAll location exprs
      return value :: values

def evaluateFields (evaluator : Evaluator) (location : Location) :
    List (String × Expr) → Run (List (String × Value))
  | [] => pure []
  | (name, expr) :: fields => do
      let value ← evaluator.evaluate location expr
      let values ← evaluator.evaluateFields location fields
      return (name, value) :: values

def evaluateEntries (evaluator : Evaluator) (location : Location) :
    List (Expr × Expr) → Run (List (Value × Value))
  | [] => pure []
  | (key, value) :: entries => do
      let key ← evaluator.evaluate location key
      let value ← evaluator.evaluate location value
      let values ← evaluator.evaluateEntries location entries
      return (key, value) :: values

/-- Arguments flow into the parameters they are for. -/
def evaluateArgs (evaluator : Evaluator) (location : Location) :
    List Param → List Expr → Run (List Value)
  | param :: params, arg :: args => do
      let value ← flowInto location param.kind arg (evaluator.evaluate location arg)
      let values ← evaluator.evaluateArgs location params args
      return value :: values
  | _, _ => pure []

end

/-- Evaluate an expression where a kind is expected. -/
def evaluateFor (evaluator : Evaluator) (location : Location) (kind : Kind) (expr : Expr) :
    Run Value :=
  flowInto location kind expr (evaluator.evaluate location expr)

/-- The value of a declaration: its initialiser, or the zero value of its kind. -/
def evaluateDecl (evaluator : Evaluator) (location : Location) (decl : VarDecl) : Run Value := do
  let value ←
    match decl.init with
    | some init => evaluator.evaluateFor location decl.kind init
    | none => pure (.zero decl.kind)
  expectKind location decl.kind value
  return value

/-- Evaluate the arguments of a call and run it. -/
def call (evaluator : Evaluator) (location : Location) (callee : String) (args : List Expr) :
    Run (Option Value) := do
  let function ← evaluator.model.function callee location
  checkArgumentCount location function args.length
  let values ← evaluator.evaluateArgs location function.params args
  evaluator.invoke function values location

end Evaluator

end ReferenceSemantics

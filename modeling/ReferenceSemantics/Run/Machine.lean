import ReferenceSemantics.Config
import ReferenceSemantics.Escape.Classify
import ReferenceSemantics.Run.Trace
import ReferenceSemantics.Storage.Block
import ReferenceSemantics.Storage.Table

set_option autoImplicit false

/-!
What a run reads and what it changes.

The model of a program is fixed: its globals and functions, the placement of its sites and the
configuration. The machine holds storage, the trace, the host's abort signal and the values last
captured. A computation that fails leaves the machine as it was when it failed.
-/

namespace ReferenceSemantics

/-- The host's means to stop a run at a statement boundary. -/
structure AbortSignal where
  raised : Bool
  /-- The statement boundaries that may still pass; absent when unlimited. -/
  budget : Option Nat
deriving DecidableEq, Repr, Inhabited

namespace AbortSignal

def idle : AbortSignal := ⟨false, none⟩

/-- The budget that stands for no limit. -/
def unlimited : Nat := wordEnd - 1

def abort (signal : AbortSignal) : AbortSignal := { signal with raised := true }

def abortAfter (signal : AbortSignal) (boundaries : Nat) : AbortSignal :=
  { signal with budget := if boundaries = unlimited then none else some boundaries }

/-- Pass one statement boundary; an exhausted budget raises the signal. -/
def tick (signal : AbortSignal) : AbortSignal :=
  match signal.budget with
  | none => signal
  | some 0 => signal.abort
  | some (left + 1) => { signal with budget := some left }

end AbortSignal

/-- A program made ready to run. -/
structure Model where
  config : Config
  globals : List VarDecl
  functions : List FunctionDef
  /-- The placement of every site, the policy applied. -/
  placements : Placements

namespace Model

/-- Classify a program under a configuration. -/
def new (program : Program) (config : Config) : Model :=
  let classified := program.classify config.escapeMode
  ⟨config, program.globals, program.functions,
    config.placementPolicy.forced?.elim classified classified.forced⟩

/-- The last definition of a name. -/
def function? (model : Model) (name : String) : Option FunctionDef :=
  model.functions.reverse.find? (·.name == name)

/-- An unknown site is placed on the stack. -/
def placement (model : Model) (site : SiteId) : Placement :=
  (model.config.placementPolicy.forced?.or (model.placements.get? site)).getD .stack

end Model

structure Machine where
  storage : Storage
  trace : Trace
  abort : AbortSignal
  finalValues : NameMap Value
deriving Inhabited

def Machine.new (traceLimit : Nat) : Machine := ⟨.empty, .new traceLimit, .idle, .empty⟩

/-- Why a computation stops before its end. -/
inductive Halt where
  | error (error : RuntimeError)
  | aborted (location : Location)
  /-- More calls are nested than a program without recursion can nest. -/
  | callDepthExceeded
deriving DecidableEq, Repr

abbrev Run := ExceptT Halt (StateM Machine)

namespace Run

variable {α : Type}

def fail (error : RuntimeError) : Run α := throw (.error error)

def mismatch (location : Location) (mismatch : Mismatch) : Run α :=
  fail (.kindMismatch mismatch location)

/-- The result of looking at storage. -/
def read (location : Location) (look : Storage → Except StorageError α) : Run α := do
  match look (← get).storage with
  | .ok result => return result
  | .error error => fail (.ofStorage location error)

def setStorage (storage : Storage) : Run Unit := modify fun machine => { machine with storage }

/-- A change of storage that may fail. -/
def write (location : Location) (change : Storage → Except StorageError Storage) : Run Unit := do
  setStorage (← read location change)

/-- A change of storage that may fail, with a result. -/
def update (location : Location) (change : Storage → Except StorageError (α × Storage)) :
    Run α := do
  let (result, storage) ← read location change
  setStorage storage
  return result

/-- A change of storage with a result. -/
def allocate (change : Storage → α × Storage) : Run α :=
  modifyGet fun machine =>
    let (result, storage) := change machine.storage
    (result, { machine with storage })

def pushFrame (function : String) (callSite : Option Location) : Run Unit :=
  modify fun machine =>
    { machine with storage := machine.storage.pushFrame function callSite }

def popFrame : Run Unit :=
  modify fun machine => { machine with storage := machine.storage.popFrame }

def record (event : TraceEvent) : Run Unit :=
  modify fun machine => { machine with trace := machine.trace.record event }

/-- The slot that a name designates. -/
def lookup (name : String) (location : Location) : Run SlotRef := do
  match (← get).storage.lookup name with
  | some ref => return ref
  | none => fail (.undefinedVariable name location)

/-- The value that a reference designates. -/
def load (location : Location) (ref : SlotRef) : Run Value := read location (·.load ref)

def store (location : Location) (ref : SlotRef) (value : Value) : Run Unit :=
  write location (·.store ref value)

/-- The slot that a pointer points to. -/
def dereference (location : Location) (pointer : Value) : Run SlotRef :=
  read location (·.dereference pointer)

def expectKind (location : Location) (kind : Kind) (value : Value) : Run Unit :=
  if value.kind = kind then pure () else mismatch location (.kind kind value.shape)

/-- Blocks and tables always live in the heap. -/
def recordBehind (header : Value) : Run Unit := do
  if let some address := header.behind? then record (.alloc none address .heap)

/-- A header that moved has a new block. -/
def recordMove (header moved : Value) : Run Unit :=
  if moved.behind? ≠ header.behind? then recordBehind moved else pure ()

/-- A statement boundary: honour the abort signal, then record the step. -/
def checkpoint (location : Location) : Run Unit := do
  modify fun machine => { machine with abort := machine.abort.tick }
  if (← get).abort.raised then throw (.aborted location)
  record (.statement location)

/-- Record a call transition at the present depth. -/
def transition (function : String) (state : CallState) : Run Unit := do
  record (.call function state ((← get).storage.depth - 1))

end Run

namespace Model

open Run

def function (model : Model) (name : String) (location : Location) : Run FunctionDef :=
  match model.function? name with
  | some function => pure function
  | none => fail (.undefinedFunction name location)

/-- Create a slot for a site and bind its name in the current frame. -/
def bind (model : Model) (name : String) (kind : Kind) (site : SiteId) (value : Value) :
    Run Unit := do
  let placement := model.placement site
  let ref ← allocate (·.declare name kind (some site) placement value)
  record (.alloc (some site) ref.address placement)

end Model

end ReferenceSemantics

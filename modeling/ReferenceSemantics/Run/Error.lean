import ReferenceSemantics.Program.WellFormedness
import ReferenceSemantics.Storage.Error

set_option autoImplicit false

/-!
How a run fails.

A fault ends the run like a panic and is part of its verdict. Every other error means that the
program is ill-typed in a way the structural check does not see.
-/

namespace ReferenceSemantics

inductive FaultKind where
  | nilDereference
  | danglingPointer
  | indexOutOfRange
  | nilMapWrite
deriving DecidableEq, Repr, Inhabited

namespace FaultKind

def all : List FaultKind := [nilDereference, danglingPointer, indexOutOfRange, nilMapWrite]

/-- The name in documents. -/
def name : FaultKind → String
  | nilDereference => "NilDereference"
  | danglingPointer => "DanglingPointer"
  | indexOutOfRange => "IndexOutOfRange"
  | nilMapWrite => "NilMapWrite"

/-- The wording in messages. -/
def text : FaultKind → String
  | nilDereference => "nil dereference"
  | danglingPointer => "dangling pointer"
  | indexOutOfRange => "index out of range"
  | nilMapWrite => "nil map write"

end FaultKind

inductive Fault where
  | nilDereference
  | dangling (address : Address)
  | indexOutOfRange (index : Int) (len : Nat)
  | nilMapWrite
  /-- A slice was to be made longer than its capacity. -/
  | makeLength (len cap : Nat)
deriving DecidableEq, Repr

namespace Fault

def kind : Fault → FaultKind
  | nilDereference => .nilDereference
  | dangling _ => .danglingPointer
  | indexOutOfRange _ _ | makeLength _ _ => .indexOutOfRange
  | nilMapWrite => .nilMapWrite

def detail : Fault → String
  | nilDereference => StorageError.message .nilDereference
  | dangling address => StorageError.message (.dangling address)
  | indexOutOfRange index len => StorageError.message (.indexOutOfRange index len)
  | nilMapWrite => StorageError.message .nilMapWrite
  | makeLength len cap => s!"make: length {len} exceeds capacity {cap}"

end Fault

/-- A value of another kind than its use asks for. -/
inductive Mismatch where
  | kind (expected : Kind) (got : Shape)
  /-- The literal `nil` where a primitive or composite is expected. -/
  | nilAsValue
  | notComposite (got : Shape)
  | notInt (got : Shape)
  | argumentCount (expected got : Nat)
  | noResult (callee : String)
deriving DecidableEq, Repr

namespace Mismatch

def expected : Mismatch → String
  | kind expected _ => expected.name
  | nilAsValue => "value"
  | notComposite _ => "composite"
  | notInt _ => "int"
  | argumentCount expected _ => s!"{expected} argument(s)"
  | noResult _ => "a result"

def got : Mismatch → String
  | kind _ got | notComposite got | notInt got => got.name
  | nilAsValue => "nil"
  | argumentCount _ got => toString got
  | noResult callee => s!"no result from '{callee}'"

end Mismatch

inductive RuntimeError where
  | fault (cause : Fault) (location : Location)
  | kindMismatch (mismatch : Mismatch) (location : Location)
  | undefinedVariable (name : String) (location : Location)
  | undefinedFunction (name : String) (location : Location)
  | missingField (path : List String) (location : Location)
  /-- An address designates something else than the program's values say. -/
  | invalidState (address : Address) (target : Target) (location : Location)
deriving DecidableEq, Repr

namespace RuntimeError

def location : RuntimeError → Location
  | fault _ location | kindMismatch _ location | undefinedVariable _ location
  | undefinedFunction _ location | missingField _ location | invalidState _ _ location => location

def faultKind? : RuntimeError → Option FaultKind
  | fault cause _ => some cause.kind
  | _ => none

/-- A failure of storage at a place in the program. -/
def ofStorage (location : Location) : StorageError → RuntimeError
  | .nilDereference => fault .nilDereference location
  | .dangling address => fault (.dangling address) location
  | .indexOutOfRange index len => fault (.indexOutOfRange index len) location
  | .nilMapWrite => fault .nilMapWrite location
  | .kindMismatch expected got => kindMismatch (.kind expected got) location
  | .missingField path => missingField path location
  | .invalidAddress address target => invalidState address target location

def message : RuntimeError → String
  | fault cause location => s!"{cause.kind.text} at {location.text}: {cause.detail}"
  | kindMismatch mismatch location =>
      s!"kind mismatch at {location.text}: expected {mismatch.expected}, got {mismatch.got}"
  | undefinedVariable name location => s!"undefined variable '{name}' at {location.text}"
  | undefinedFunction name location => s!"undefined function '{name}' at {location.text}"
  | missingField path location =>
      let field := StorageError.pathText path
      s!"no field '{field}' at {location.text}"
  | invalidState address target location =>
      let detail := StorageError.message (.invalidAddress address target)
      s!"invalid storage state at {location.text}: {detail}"

end RuntimeError

end ReferenceSemantics

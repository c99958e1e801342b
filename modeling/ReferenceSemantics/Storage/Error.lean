import ReferenceSemantics.Value.Basic

set_option autoImplicit false

/-!
Where slots live, and how single operations on storage fail.
-/

namespace ReferenceSemantics

/-- Where the slots of an allocation site live. -/
inductive Placement where
  | stack
  | heap
deriving DecidableEq, Repr, Inhabited

namespace Placement

def all : List Placement := [stack, heap]

def name : Placement → String
  | stack => "stack"
  | heap => "heap"

end Placement

/-- What an address was expected to designate. -/
inductive Target where
  | slot
  | block
  | blockCell
  | table
deriving DecidableEq, Repr

def Target.name : Target → String
  | slot => "slot"
  | block => "block"
  | blockCell => "block cell"
  | table => "table"

inductive StorageError where
  | nilDereference
  /-- The address belongs to a frame that is gone. -/
  | dangling (address : Address)
  | indexOutOfRange (index : Int) (len : Nat)
  | nilMapWrite
  | kindMismatch (expected : Kind) (got : Shape)
  | missingField (path : List String)
  | invalidAddress (address : Address) (target : Target)
deriving DecidableEq, Repr

namespace StorageError

def hexText (address : Address) : String := "0x" ++ String.ofList (Nat.toDigits 16 address)

def pathText (path : List String) : String := ".".intercalate path

def message : StorageError → String
  | nilDereference => "dereference of an empty pointer"
  | dangling address =>
      "slot at " ++ hexText address ++ " belongs to a frame that has been destroyed"
  | indexOutOfRange index len => s!"index {index} out of range for length {len}"
  | nilMapWrite => "assignment to entry in nil key-value header"
  | kindMismatch expected got => s!"expected {expected.name}, got {got.name}"
  | missingField path => "no field `" ++ pathText path ++ "`"
  | invalidAddress address target =>
      "address " ++ hexText address ++ " does not designate a " ++ target.name

end StorageError

end ReferenceSemantics

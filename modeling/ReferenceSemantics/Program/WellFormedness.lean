import ReferenceSemantics.Program.Basic

set_option autoImplicit false

/-!
Why a program is refused before it runs.
-/

namespace ReferenceSemantics

/-- What is wrong with the sizes of a slice. -/
inductive SliceDefect where
  | capacityBelowLength (capacity length : Nat)
  | spareWithoutElement
  | lengthAboveCapacity (length capacity : Nat)
deriving DecidableEq, Repr

def SliceDefect.message : SliceDefect → String
  | capacityBelowLength capacity length => s!"capacity {capacity} is below length {length}"
  | spareWithoutElement => "spare capacity needs at least one element"
  | lengthAboveCapacity length capacity => s!"length {length} exceeds capacity {capacity}"

inductive WellFormednessError where
  | duplicateFunction (name : String)
  | missingEntry (name : String)
  | entryTakesParameters (name : String)
  | unknownFunction (name : String) (location : Location)
  | arityMismatch (function : String) (expected got : Nat) (location : Location)
  | unknownVariable (name : String) (location : Location)
  | duplicateVariable (name function : String)
  | duplicateSite (site : SiteId)
  | recursiveCall (function via : String)
  | untypedBox (location : Location)
  | resultMismatch (function : String) (location : Location)
  | missingReturn (function : String)
  | invalidSlice (defect : SliceDefect) (location : Location)
deriving DecidableEq, Repr

namespace WellFormednessError

def message : WellFormednessError → String
  | duplicateFunction name => s!"function `{name}` is defined more than once"
  | missingEntry name => s!"entry function `{name}` is not defined"
  | entryTakesParameters name => s!"entry function `{name}` must not take parameters"
  | unknownFunction name location => s!"call to undefined function `{name}` in {location.text}"
  | arityMismatch function expected got location =>
      s!"function `{function}` expects {expected} argument(s), got {got} in {location.text}"
  | unknownVariable name location =>
      s!"variable `{name}` is used before declaration in {location.text}"
  | duplicateVariable name function => s!"variable `{name}` is declared twice in `{function}`"
  | duplicateSite site => s!"allocation site `{site}` is declared more than once"
  | recursiveCall function via => s!"function `{function}` calls itself through `{via}`"
  | untypedBox location =>
      s!"interface box without a type tag must hold nil in {location.text}"
  | resultMismatch function location =>
      s!"return value does not match the result of `{function}` in {location.text}"
  | missingReturn function =>
      s!"function `{function}` can fall off its end without returning a value"
  | invalidSlice defect location => s!"invalid slice literal in {location.text}: {defect.message}"

/-- The place in the program, for the errors that have one. -/
def location? : WellFormednessError → Option Location
  | unknownFunction _ location | arityMismatch _ _ _ location | unknownVariable _ location
  | untypedBox location | resultMismatch _ location | invalidSlice _ location => some location
  | _ => none

end WellFormednessError

end ReferenceSemantics

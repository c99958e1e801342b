import ReferenceSemantics.Json.Basic

set_option autoImplicit false

/-!
Numerals as written, and the numbers they denote.

An integer that fits a 64-bit word is itself. Any other numeral is a double: the leading digits
that fit an unsigned word, rounded, times or divided by a rounded power of ten. The digits after
those only move the point, and a result past the largest double is no value.
-/

namespace ReferenceSemantics

/-- The parts of a written number; each list of digits is in reading order. -/
structure Numeral where
  negative : Bool
  whole : List Nat
  fraction : Option (List Nat)
  exponent : Option (Bool × List Nat)
deriving DecidableEq

namespace Numeral

/-- Extend the significand digit by digit while it fits a word; also the number of digits left. -/
def absorb (significand : Nat) : List Nat → Nat × Nat
  | [] => (significand, 0)
  | digit :: digits =>
      if significand * 10 + digit < wordEnd then absorb (significand * 10 + digit) digits
      else (significand, digits.length + 1)

/-- The written exponent, unless it is past the range of a 32-bit word. -/
def smallExponent (digits : List Nat) : Option Nat :=
  let n := digits.foldl (fun n digit => n * 10 + digit) 0
  if n < twoTo 31 then some n else none

/-- Divide by a power of ten, at most 308 places at a time. -/
def divPowerOfTen (x : Binary64) (places : Nat) : Binary64 :=
  if places ≤ 308 then x.div (Binary64.powerOfTen places)
  else if x.isZero then x
  else divPowerOfTen (x.div (Binary64.powerOfTen 308)) (places - 308)
termination_by places
decreasing_by omega

/-- The magnitude of a significand scaled by a power of ten; absent when it is out of range. -/
def scaled (significand : Nat) (power : Int) : Option Binary64 :=
  let x := Binary64.ofNat significand
  if power < 0 then some (divPowerOfTen x power.natAbs)
  else if power ≤ 308 then
    let y := x.mul (Binary64.powerOfTen power.natAbs)
    if y.isInfinite then none else some y
  else if x.isZero then some x
  else none

/-- The magnitude of a numeral that is not an integer of word size. -/
def magnitude (n : Numeral) : Option Binary64 :=
  let (wholeDigits, skipped) := absorb 0 n.whole
  let fraction := n.fraction.getD []
  let (significand, left) := absorb wholeDigits fraction
  let power : Int := skipped - (fraction.length - left : Nat)
  match n.exponent with
  | none => scaled significand power
  | some (below, digits) =>
      match smallExponent digits with
      | some e => scaled significand (if below then power - e else power + e)
      | none => if below || significand == 0 then some .zero else none

def float? (n : Numeral) : Option Scalar :=
  n.magnitude.map fun x => .float (if n.negative then x.negate else x)

/-- The value of a numeral; absent when it is out of range. A negative zero is a double, as an
integer has no sign of zero. -/
def value? (n : Numeral) : Option Scalar :=
  match n.fraction, n.exponent, absorb 0 n.whole with
  | none, none, (value, 0) =>
      if !n.negative then some (.int value)
      else if value = 0 ∨ integerEnd < value then n.float?
      else some (.int (-value))
  | _, _, _ => n.float?

end Numeral

end ReferenceSemantics

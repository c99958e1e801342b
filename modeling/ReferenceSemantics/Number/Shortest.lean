import ReferenceSemantics.Number.Binary64

set_option autoImplicit false

/-!
The fewest decimal digits that read back as a double, and their text.

Every real between the midpoints to the two neighbours of `m · 2 ^ q` rounds to it, the midpoints
included when `m` is even. The first grid of 1 to 17 significant digits with a point in that
interval wins; of two points the nearer one does, and of two equally near the even one.
-/

namespace ReferenceSemantics

/-- The decimal `digits · 10 ^ power`. -/
structure Decimal where
  digits : Nat
  power : Int
deriving DecidableEq, Inhabited

namespace Binary64

/-- The interval around a double in quarters of its unit, and whether its ends belong to it. Below
a power of two the neighbour is half as far. -/
def roundingInterval (x : Binary64) : Nat × Nat × Bool :=
  let m := x.significand
  let below := if x.magnitude % twoTo 52 = 0 ∧ 1 < x.exponentField then 1 else 2
  (4 * m - below, 4 * m + 2, m % 2 == 0)

/-- The number `n` quarters of the unit as a ratio, over `10 ^ power`. -/
def quarters (x : Binary64) (n : Nat) (power : Int) : Nat × Nat :=
  let e := x.exponent - 2
  (n * twoTo e.toNat * tenTo (-power).toNat, twoTo (-e).toNat * tenTo power.toNat)

/-- The point of the grid of multiples of `10 ^ power` that stands for the double. -/
def gridPoint? (x : Binary64) (power : Int) : Option Nat :=
  let (low, high, closed) := x.roundingInterval
  let (lowNum, den) := x.quarters low power
  let (highNum, _) := x.quarters high power
  let (num, _) := x.quarters (4 * x.significand) power
  let inside (n : Nat) : Bool :=
    if closed then decide (lowNum ≤ n * den ∧ n * den ≤ highNum)
    else decide (lowNum < n * den ∧ n * den < highNum)
  let nearest := roundDiv num den
  let down := num / den
  if inside nearest then some nearest
  else if inside down then some down
  else if inside (down + 1) then some (down + 1)
  else none

/-- The number of decimal digits before the point of a positive double, or minus the number of
zeros after it. -/
def decimalWidth (x : Binary64) : Int :=
  let (num, den) := x.quarters (4 * x.significand) 0
  if den ≤ num then ((Nat.toDigits 10 (num / den)).length : Nat)
  else 1 - ((Nat.toDigits 10 (den / num)).length : Nat)

/-- The shortest decimal that reads back as the positive double, without trailing zeros. -/
def shortest (x : Binary64) : Decimal :=
  let width := x.decimalWidth
  let found := (List.range 18).findSome? fun (count : Nat) =>
    let power := width - (count : Nat)
    match x.gridPoint? power with
    | some digits => if digits = 0 then none else some (Decimal.mk digits power)
    | none => none
  strip 17 (found.getD ⟨0, 0⟩)
where
  strip : Nat → Decimal → Decimal
    | 0, d => d
    | n + 1, d =>
        if d.digits ≠ 0 ∧ d.digits % 10 = 0 then strip n ⟨d.digits / 10, d.power + 1⟩ else d

end Binary64

/-- How a shortest decimal is laid out: positional for a leading digit at a place from `lowest` to
below `highest`, and a marked exponent elsewhere. -/
structure DecimalLayout where
  lowest : Int
  highest : Int

namespace DecimalLayout

def zeros (n : Nat) : List Char := List.replicate n '0'

/-- The text of a decimal that is not negative; a positional integer ends in a zero fraction. -/
def text (layout : DecimalLayout) (d : Decimal) : String :=
  let ds := Nat.toDigits 10 d.digits
  let point : Int := ds.length + d.power
  if d.digits = 0 then "0.0"
  else if 0 ≤ d.power ∧ point ≤ layout.highest then
    String.ofList (ds ++ zeros d.power.toNat ++ ['.', '0'])
  else if 0 < point ∧ point ≤ layout.highest then
    String.ofList (ds.take point.toNat ++ ['.'] ++ ds.drop point.toNat)
  else if layout.lowest < point ∧ point ≤ 0 then
    String.ofList (['0', '.'] ++ zeros (-point).toNat ++ ds)
  else
    let mark := "e" ++ toString (point - 1)
    match ds with
    | [one] => String.singleton one ++ mark
    | one :: rest => String.singleton one ++ "." ++ String.ofList rest ++ mark
    | [] => mark

end DecimalLayout

end ReferenceSemantics

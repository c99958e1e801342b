import ReferenceSemantics.Number.Word

set_option autoImplicit false

/-!
Double-precision numbers as bit patterns, with exact rounding.

A finite pattern denotes `significand · 2 ^ exponent` with the sign of its top bit. `ofRatio`
gives the double nearest to a ratio of naturals, a tie going to the even significand; products
and quotients are the rounded exact ones.
-/

namespace ReferenceSemantics

structure Binary64 where
  bits : UInt64
deriving DecidableEq, Inhabited

namespace Binary64

def zero : Binary64 := ⟨0⟩

def infinity : Binary64 := ⟨0x7FF0000000000000⟩

def isNegative (x : Binary64) : Bool := x.bits >>> 63 == 1

/-- The pattern without its sign. -/
def magnitude (x : Binary64) : Nat := x.bits.toNat % twoTo 63

def isNaN (x : Binary64) : Bool := infinity.magnitude < x.magnitude

def isInfinite (x : Binary64) : Bool := x.magnitude == infinity.magnitude

def isZero (x : Binary64) : Bool := x.magnitude == 0

/-- The number with its sign turned. -/
def negate (x : Binary64) : Binary64 := ⟨x.bits ^^^ 0x8000000000000000⟩

/-- Numerical equality: the two zeros are equal, and no NaN equals anything. -/
def same (x y : Binary64) : Bool :=
  !x.isNaN && !y.isNaN && (x.bits == y.bits || x.isZero && y.isZero)

/-- The biased exponent field. -/
def exponentField (x : Binary64) : Nat := x.magnitude / twoTo 52

def significand (x : Binary64) : Nat :=
  if x.exponentField = 0 then x.magnitude else x.magnitude % twoTo 52 + twoTo 52

def exponent (x : Binary64) : Int :=
  if x.exponentField = 0 then -1074 else x.exponentField - 1075

/-- The quotient rounded to the nearest natural, a half to the even one. -/
def roundDiv (num den : Nat) : Nat :=
  let q := num / den
  let twice := 2 * (num % den)
  if twice < den then q
  else if den < twice then q + 1
  else q + q % 2

/-- The largest `e` with `2 ^ e ≤ num / den`, for positive arguments. -/
def floorLog2 (num den : Nat) : Int :=
  let e : Int := num.log2 - den.log2
  if den * twoTo e.toNat ≤ num * twoTo (-e).toNat then e else e - 1

/-- The double nearest to `num / den`; infinite from half a unit past the largest one on. -/
def ofRatio (num den : Nat) : Binary64 :=
  if num = 0 then zero
  else
    let unit : Int := max (floorLog2 num den - 52) (-1074)
    let m := roundDiv (num * twoTo (-unit).toNat) (den * twoTo unit.toNat)
    let pattern := (unit + 1074).toNat * twoTo 52 + m
    if pattern < infinity.magnitude then ⟨pattern.toUInt64⟩ else infinity

def ofNat (n : Nat) : Binary64 := ofRatio n 1

def ofInt (n : Int) : Binary64 :=
  if n < 0 then (ofNat n.natAbs).negate else ofNat n.natAbs

/-- The product of two magnitudes. -/
def mul (x y : Binary64) : Binary64 :=
  let e := x.exponent + y.exponent
  ofRatio (x.significand * y.significand * twoTo e.toNat) (twoTo (-e).toNat)

/-- The quotient of two magnitudes, for a divisor that is not zero. -/
def div (x y : Binary64) : Binary64 :=
  let e := x.exponent - y.exponent
  ofRatio (x.significand * twoTo e.toNat) (y.significand * twoTo (-e).toNat)

/-- The double nearest to a power of ten. -/
def powerOfTen (n : Nat) : Binary64 := ofNat (tenTo n)

end Binary64

end ReferenceSemantics

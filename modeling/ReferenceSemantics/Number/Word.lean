set_option autoImplicit false

/-!
Powers of two and of ten, and the ends of the 64-bit integers.
-/

namespace ReferenceSemantics

def twoTo (n : Nat) : Nat := Nat.pow 2 n

def tenTo (n : Nat) : Nat := Nat.pow 10 n

/-- The first number past the unsigned words. -/
def wordEnd : Nat := 0x10000000000000000

/-- The first number past the integers with a sign. -/
def integerEnd : Int := 0x8000000000000000

end ReferenceSemantics

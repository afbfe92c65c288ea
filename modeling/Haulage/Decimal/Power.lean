/-
Module: Haulage.Decimal.Power
Purpose: The powers of two and of ten.
Main exports: twoTo, tenTo
-/

namespace Haulage

/-- A power of two. -/
def twoTo (n : Nat) : Nat := Nat.pow 2 n

/-- A power of ten. -/
def tenTo (n : Nat) : Nat := Nat.pow 10 n

end Haulage

/-
Module: Haulage.Decimal.Binary
Purpose: The exact value of a double, as a whole number times a power of two.
Main exports: BinaryValue, BinaryValue.ofFloat?
-/
import Haulage.Decimal.Power

namespace Haulage

/-- The number `significand * 2 ^ exponent`, with a sign. -/
structure BinaryValue where
  isNegative : Bool
  significand : Nat
  exponent : Int
deriving DecidableEq, Repr, Inhabited

namespace BinaryValue

/-- The value of a double, unless it is infinite or no number. -/
def ofFloat? (x : Float) : Option BinaryValue :=
  let word : Nat := x.toBits.toNat
  let isNegative := decide (twoTo 63 ≤ word)
  let exponentBits : Nat := word / twoTo 52 % twoTo 11
  let fractionBits : Nat := word % twoTo 52
  if exponentBits = twoTo 11 - 1 then none
  else if exponentBits = 0 then some ⟨isNegative, fractionBits, -1074⟩
  else some ⟨isNegative, twoTo 52 + fractionBits, (exponentBits : Int) - 1075⟩

/-- The magnitude as a fraction, numerator first. -/
def magnitude (v : BinaryValue) : Nat × Nat :=
  if 0 ≤ v.exponent then (v.significand * twoTo v.exponent.toNat, 1)
  else (v.significand, twoTo (-v.exponent).toNat)

end BinaryValue

end Haulage

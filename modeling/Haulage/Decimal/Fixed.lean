/-
Module: Haulage.Decimal.Fixed
Purpose: Doubles in decimal with a fixed number of places behind the point.
Main exports: roundToEven, fixedPlaces
-/
import Haulage.Decimal.Binary
import Haulage.Text.Scan

namespace Haulage

/-- The whole number nearest to a fraction, where a half goes to the even neighbour. -/
def roundToEven (num den : Nat) : Nat :=
  let q := num / den
  let r := num % den
  if 2 * r < den then q
  else if den < 2 * r then q + 1
  else if q % 2 = 0 then q else q + 1

/-- A rounded fraction is within a half of it. -/
theorem roundToEven_near (num : Nat) {den : Nat} (h : 0 < den) :
    2 * num ≤ 2 * (roundToEven num den * den) + den ∧
      2 * (roundToEven num den * den) ≤ 2 * num + den := by
  have split_ := Nat.div_add_mod num den
  have small := Nat.mod_lt num h
  have comm : den * (num / den) = num / den * den := Nat.mul_comm _ _
  have step : (num / den + 1) * den = num / den * den + den := Nat.succ_mul _ _
  simp only [roundToEven]
  split
  · omega
  · split
    · omega
    · split <;> omega

/-- A double with `places` digits behind the point, a half going to the even neighbour.  A negative
number keeps its sign when it is rounded to zero. -/
def fixedPlaces (places : Nat) (x : Float) : String :=
  match BinaryValue.ofFloat? x with
  | none => if x.isNaN then "NaN" else if x < 0 then "-inf" else "inf"
  | some v =>
    let (num, den) := v.magnitude
    let scaled := roundToEven (num * tenTo places) den
    let sign := if v.isNegative then "-" else ""
    let whole := toString (scaled / tenTo places)
    if places = 0 then sign ++ whole
    else sign ++ whole ++ "." ++ padded places (scaled % tenTo places)

end Haulage

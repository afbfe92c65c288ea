/-
Module: Haulage.Decimal.Shortest
Purpose: Doubles in decimal with the fewest digits that read back to the same double.
Main exports: DecimalDigits, DecimalDigits.ofBinary, shortestText?
-/
import Haulage.Decimal.Binary
import Haulage.Text.Scan

namespace Haulage

/-- The number `digits * 10 ^ exponent`. -/
structure DecimalDigits where
  digits : Nat
  exponent : Int
deriving DecidableEq, Repr, Inhabited

namespace DecimalDigits

/-- Compares the fraction `num / den` with `digits * 10 ^ exponent`, by taking both to whole
numbers. -/
def scaledPair (num den digits : Nat) (exponent : Int) : Nat × Nat :=
  if 0 ≤ exponent then (num, digits * tenTo exponent.toNat * den)
  else (num * tenTo (-exponent).toNat, digits * den)

/-- Whether a decimal rounds to the double with the given significand and exponent: it lies between
the middles to its two neighbours, which count as inside when the significand is even. -/
def roundsTo (v : BinaryValue) (d : DecimalDigits) : Bool :=
  let atPowerOfTwo := v.significand = twoTo 52 && decide (-1074 < v.exponent)
  -- The middles are (4m ± 2) quarters of a unit, or 4m - 1 below a power of two.
  let quarter : BinaryValue := { v with significand := 1, exponent := v.exponent - 2 }
  let (num, den) := quarter.magnitude
  let low := (4 * v.significand - (if atPowerOfTwo then 1 else 2)) * num
  let high := (4 * v.significand + 2) * num
  let (lowSide, decimalLow) := scaledPair low den d.digits d.exponent
  let (highSide, decimalHigh) := scaledPair high den d.digits d.exponent
  if v.significand % 2 = 0 then decide (lowSide ≤ decimalLow) && decide (decimalHigh ≤ highSide)
  else decide (lowSide < decimalLow) && decide (decimalHigh < highSide)

/-- The number of decimal digits before the point of a fraction, zero or less where it is below
one. -/
def magnitudeOf (num den : Nat) : Int :=
  let estimate : Int := (Nat.toDigits 10 num).length - (Nat.toDigits 10 den).length
  let (a, b) := scaledPair num den 1 estimate
  if b ≤ a then estimate + 1 else estimate

/-- The neighbours of a double among the decimals of `count` digits, the nearer one first. -/
def neighbours (v : BinaryValue) (count : Nat) : List DecimalDigits :=
  let (num, den) := v.magnitude
  let exponent := magnitudeOf num den - count
  let (a, b) := scaledPair num den 1 exponent
  let below : DecimalDigits := ⟨a / b, exponent⟩
  let above : DecimalDigits := ⟨a / b + 1, exponent⟩
  let rest := a % b
  if 2 * rest < b || (2 * rest = b && (a / b) % 2 = 0) then [below, above] else [above, below]

/-- The decimal without the zeros at its end. -/
def trimmed (fuel : Nat) (d : DecimalDigits) : DecimalDigits :=
  match fuel with
  | 0 => d
  | fuel + 1 =>
    if d.digits ≠ 0 ∧ d.digits % 10 = 0 then trimmed fuel ⟨d.digits / 10, d.exponent + 1⟩ else d

/-- The decimal with the fewest digits that rounds to a positive double, and of those the
nearest.  Seventeen digits always do. -/
def ofBinary (v : BinaryValue) : DecimalDigits :=
  let candidates := (List.range 17).flatMap fun i => neighbours v (i + 1)
  trimmed 20 ((candidates.find? (roundsTo v)).getD ⟨v.significand, 0⟩)

end DecimalDigits

/-- A decimal in writing.  Positions from five zeros behind the point to sixteen digits before it
are written out, and everything else with a power of ten.  A point is always shown where no power
of ten is. -/
def DecimalDigits.text (d : DecimalDigits) : String :=
  let ds := Nat.toDigits 10 d.digits
  let count : Int := ds.length
  let point := count + d.exponent
  let zeros (n : Int) : List Char := List.replicate n.toNat '0'
  if 0 ≤ d.exponent ∧ point ≤ 16 then String.ofList (ds ++ zeros d.exponent) ++ ".0"
  else if 0 < point ∧ point ≤ 16 then
    String.ofList (ds.take point.toNat) ++ "." ++ String.ofList (ds.drop point.toNat)
  else if -5 < point ∧ point ≤ 0 then "0." ++ String.ofList (zeros (-point) ++ ds)
  else
    let power := point - 1
    let head := String.ofList (ds.take 1)
    let mantissa := if ds.length ≤ 1 then head else head ++ "." ++ String.ofList (ds.drop 1)
    mantissa ++ "e" ++ toString power

/-- A double with the fewest digits that read back, unless it is infinite or no number. -/
def shortestText? (x : Float) : Option String :=
  (BinaryValue.ofFloat? x).map fun v =>
    let sign := if v.isNegative then "-" else ""
    if v.significand = 0 then sign ++ "0.0"
    else sign ++ (DecimalDigits.ofBinary v).text

end Haulage

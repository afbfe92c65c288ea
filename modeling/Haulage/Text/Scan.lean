/-
Module: Haulage.Text.Scan
Purpose: Reading digits off the front of a text.
Main exports: Scan.digits, Scan.count, Scan.value, Scan.fixed, Scan.fraction, Scan.word?, padded
-/
import Haulage.Decimal.Power

namespace Haulage

namespace Scan

/-- The digits at the front of a text, and what follows them. -/
def digits (cs : List Char) : List Char × List Char := cs.span Char.isDigit

/-- The digits of a count at the front of a text, and what follows them.  A count is read no further
than its 21st digit. -/
def count (cs : List Char) : List Char × List Char :=
  let ds := (cs.take 21).takeWhile Char.isDigit
  (ds, cs.drop ds.length)

/-- The value of a decimal digit. -/
def digitValue (c : Char) : Nat := c.toNat - '0'.toNat

/-- The number that a list of decimal digits denotes. -/
def value (ds : List Char) : Nat := ds.foldl (fun n c => 10 * n + digitValue c) 0

/-- A number of exactly `n` digits. -/
def fixed (n : Nat) (cs : List Char) : Option (Nat × List Char) :=
  let ds := cs.take n
  if ds.length = n ∧ ds.all Char.isDigit then some (value ds, cs.drop n) else none

/-- A number of two digits of at most `most`. -/
def pair (most : Nat) (cs : List Char) : Option (Nat × List Char) := do
  let (n, rest) ← fixed 2 cs
  if n ≤ most then some (n, rest) else none

/-- A fraction with its point or comma, in billionths: one to nine digits.  It is absent where no
point stands, and refused where no digit follows the point. -/
def fraction : List Char → Option (Option Nat × List Char)
  | c :: cs =>
    if c = '.' ∨ c = ',' then
      let ds := (cs.take 9).takeWhile Char.isDigit
      if ds.isEmpty then none
      else some (some (value ds * tenTo (9 - ds.length)), cs.drop ds.length)
    else some (none, c :: cs)
  | [] => some (none, [])

/-- A whole number with an optional sign that fits 64 bits. -/
def int64? (cs : List Char) : Option Int :=
  let magnitude (ds : List Char) : Option Nat :=
    if ds.isEmpty || !ds.all Char.isDigit then none else some (value ds)
  let checked (n : Int) : Option Int :=
    if -9223372036854775808 ≤ n ∧ n ≤ 9223372036854775807 then some n else none
  match cs with
  | '-' :: ds => (magnitude ds).bind fun n => checked (-(n : Int))
  | '+' :: ds => (magnitude ds).bind fun n => checked n
  | ds => (magnitude ds).bind fun n => checked n

/-- A whole number from zero on that fits 64 bits, which may have a plus in front. -/
def word? (cs : List Char) : Option Nat :=
  let ds := match cs with
    | '+' :: rest => rest
    | rest => rest
  if ds.isEmpty || !ds.all Char.isDigit then none
  else if value ds < twoTo 64 then some (value ds)
  else none

end Scan

/-- A number in decimal digits, with zeros in front up to a width. -/
def padded (width n : Nat) : String :=
  let ds := Nat.toDigits 10 n
  String.ofList (List.replicate (width - ds.length) '0' ++ ds)

/-- A fraction of `width` digits after its point, without the zeros at its end; nothing for zero. -/
def trimmedFraction (width n : Nat) : String :=
  if n = 0 then ""
  else "." ++ String.ofList (((padded width n).toList.reverse.dropWhile (· = '0')).reverse)

end Haulage

/-
Module: Haulage.Json.Reader
Purpose: Reading JSON documents.
Main exports: Json.outline?, Json.ofText?
-/
import Haulage.Json.Value
import Haulage.Text.Scan

namespace Haulage

/-!
A document is read in two steps.  The outline accepts every text in correct writing, and stands in
for what no value can hold; so a part that nobody asks for may be of any size.  A document that is
held is one whose outline has no such part.
-/

namespace Json.Reader

/-- The text without the blanks in front. -/
def skipBlanks (cs : List Char) : List Char :=
  cs.dropWhile fun c => c = ' ' || c = '\n' || c = '\t' || c = '\r'

/-! ### Numbers -/

/-- The largest number of 64 bits. -/
def maxWord : Nat := 18446744073709551615

/-- Appends digits to a number as long as it fits 64 bits, and counts the digits left out. -/
def appendDigits (n dropped : Nat) : List Char → Nat × Nat
  | [] => (n, dropped)
  | c :: cs =>
    let longer := 10 * n + Scan.digitValue c
    if dropped = 0 ∧ longer ≤ maxWord then appendDigits longer 0 cs
    else appendDigits n (dropped + 1) cs

/-- The double for a significand and a power of ten: one multiplication or division by the power,
after steps of 308 where the power itself is out of range.  Too large a number has none. -/
def scaleTen (x : Float) (exponent : Int) : Option Float :=
  let power (n : Nat) : Float := Float.ofScientific 1 false n
  if x == 0 then some x
  else if 308 < exponent then none
  else if 0 ≤ exponent then
    let y := x * power exponent.toNat
    if y.isInf then none else some y
  else
    -- Four steps take any number of 64 bits to zero.
    let step (state : Float × Int) : Float × Int :=
      if state.2 < -308 then (state.1 / power 308, state.2 + 308) else state
    let (y, rest) := step (step (step (x, exponent)))
    if rest < -308 then some 0 else some (y / power (-rest).toNat)

/-- Digits of an exponent with its sign. -/
def exponentPart : List Char → Option (Int × List Char)
  | c :: cs =>
    if c = 'e' ∨ c = 'E' then
      let (sign, cs) : Int × List Char := match cs with
        | '+' :: rest => (1, rest)
        | '-' :: rest => (-1, rest)
        | rest => (1, rest)
      match Scan.digits cs with
      | ([], _) => none
      | (ds, rest) => some (sign * (Scan.value ds : Int), rest)
    else some (0, c :: cs)
  | [] => some (0, [])

/-- A number without its sign.  One beyond all doubles is not held. -/
def magnitude (isNegative : Bool) (cs : List Char) : Option (Json × List Char) := do
  let (whole, rest) := Scan.digits cs
  if whole.isEmpty || (whole.head? = some '0' && whole.length ≠ 1) then none
  let (fraction, rest) ← match rest with
    | '.' :: rest =>
      match Scan.digits rest with
      | ([], _) => none
      | (ds, rest) => some (ds, rest)
    | rest => some ([], rest)
  let hasExponent := rest.head?.any fun c => c = 'e' || c = 'E'
  let (exponent, rest) ← exponentPart rest
  let (n, dropped) := appendDigits 0 0 whole
  let isWhole := fraction.isEmpty && !hasExponent && dropped = 0
  if isWhole && !isNegative then some (.int n, rest)
  else if isWhole && 0 < n && n ≤ 9223372036854775808 then some (.int (-(n : Int)), rest)
  else
    let (m, cut) := appendDigits n 0 fraction
    let places : Int := (fraction.length : Int) - cut
    match scaleTen (Float.ofNat m) (exponent + dropped - places) with
    | none => some (.unheld, rest)
    | some x => some (.real (if isNegative then -x else x), rest)

/-- A number. -/
def number : List Char → Option (Json × List Char)
  | '-' :: cs => magnitude true cs
  | cs => magnitude false cs

/-! ### Texts -/

/-- The value of a hexadecimal digit. -/
def hexValue? (c : Char) : Option Nat :=
  if c.isDigit then some (Scan.digitValue c)
  else if 'a' ≤ c ∧ c ≤ 'f' then some (c.toNat - 'a'.toNat + 10)
  else if 'A' ≤ c ∧ c ≤ 'F' then some (c.toNat - 'A'.toNat + 10)
  else none

/-- Four hexadecimal digits. -/
def hexWord : List Char → Option (Nat × List Char)
  | a :: b :: c :: d :: rest => do
    let value := ((← hexValue? a) * 16 + (← hexValue? b)) * 256 +
      ((← hexValue? c) * 16 + (← hexValue? d))
    some (value, rest)
  | _ => none

/-- The character behind a backslash and the letter u.  A character beyond 16 bits is written as a
pair of surrogates, and half a pair is no character. -/
def unicodeEscape (cs : List Char) : Option (Option Char × List Char) := do
  let (high, rest) ← hexWord cs
  if 0xd800 ≤ high ∧ high < 0xdc00 then
    match rest with
    | '\\' :: 'u' :: behind => do
      let (low, behind) ← hexWord behind
      if 0xdc00 ≤ low ∧ low < 0xe000 then
        some (some (Char.ofNat (0x10000 + (high - 0xd800) * 0x400 + (low - 0xdc00))), behind)
      else some (none, rest)
    | _ => some (none, rest)
  else if 0xdc00 ≤ high ∧ high < 0xe000 then some (none, rest)
  else some (some (Char.ofNat high), rest)

/-- The characters of a text up to its closing quote, in reverse before those read so far, unless
there is half a pair of surrogates among them.  The fuel bounds the number of characters. -/
def textFrom (fuel : Nat) (read : Option (List Char)) (cs : List Char) :
    Option (Option String × List Char) :=
  match fuel with
  | 0 => none
  | fuel + 1 =>
    match cs with
    | [] => none
    | '"' :: rest => some (read.map fun cs => String.ofList cs.reverse, rest)
    | '\\' :: 'u' :: rest => do
      let (c, rest) ← unicodeEscape rest
      textFrom fuel (do return (← c) :: (← read)) rest
    | '\\' :: c :: rest => do
      let meant ← ([('"', '"'), ('\\', '\\'), ('/', '/'), ('b', '\x08'), ('f', '\x0c'),
        ('n', '\n'), ('r', '\r'), ('t', '\t')] : List (Char × Char)).lookup c
      textFrom fuel (read.map (meant :: ·)) rest
    | c :: rest => if c.toNat < 32 then none else textFrom fuel (read.map (c :: ·)) rest

/-- The characters of a text behind its opening quote, unless they are no text. -/
def text (cs : List Char) : Option (Option String × List Char) :=
  textFrom (cs.length + 1) (some []) cs

/-! ### Values -/

mutual

/-- A value.  `depth` bounds how deep the values that are held are nested, and the fuel how many
steps are made. -/
def value (fuel depth : Nat) (cs : List Char) : Option (Json × List Char) :=
  match fuel with
  | 0 => none
  | fuel + 1 =>
    match skipBlanks cs with
    | 'n' :: 'u' :: 'l' :: 'l' :: rest => some (.null, rest)
    | 't' :: 'r' :: 'u' :: 'e' :: rest => some (.bool true, rest)
    | 'f' :: 'a' :: 'l' :: 's' :: 'e' :: rest => some (.bool false, rest)
    | '"' :: rest => do
      let (s, rest) ← text rest
      some ((s.map .str).getD .unheld, rest)
    | '[' :: rest => do
      let (items, rest) ← match skipBlanks rest with
        | ']' :: rest => some ([], rest)
        | rest => items fuel (depth - 1) rest
      some (if depth ≤ 1 then .unheld else .arr items, rest)
    | '\x7b' :: rest => do
      let (members, rest) ← match skipBlanks rest with
        | '\x7d' :: rest => some (some [], rest)
        | rest => members fuel (depth - 1) rest
      some (if depth ≤ 1 then .unheld else (members.map .obj).getD .unheld, rest)
    | cs => number cs

/-- One or more items and the bracket behind them. -/
def items (fuel depth : Nat) (cs : List Char) : Option (List Json × List Char) :=
  match fuel with
  | 0 => none
  | fuel + 1 => do
    let (item, rest) ← value fuel depth cs
    match skipBlanks rest with
    | ',' :: rest => do
      let (items, rest) ← items fuel depth rest
      some (item :: items, rest)
    | ']' :: rest => some ([item], rest)
    | _ => none

/-- One or more members and the brace behind them, unless a name is no text. -/
def members (fuel depth : Nat) (cs : List Char) :
    Option (Option (List (String × Json)) × List Char) :=
  match fuel with
  | 0 => none
  | fuel + 1 =>
    match skipBlanks cs with
    | '"' :: rest => do
      let (name, rest) ← text rest
      match skipBlanks rest with
      | ':' :: rest => do
        let (member, rest) ← value fuel depth rest
        match skipBlanks rest with
        | ',' :: rest => do
          let (members, rest) ← members fuel depth rest
          some (do return (← name, member) :: (← members), rest)
        | '\x7d' :: rest => some (name.map fun name => [(name, member)], rest)
        | _ => none
      | _ => none
    | _ => none

end

end Json.Reader

/-- The outline of a document that is one value.  What is nested 128 deep is not held. -/
def Json.outline? (s : String) : Option Json := do
  let cs := s.toList
  let (value, rest) ← Json.Reader.value (2 * cs.length + 2) 128 cs
  if (Json.Reader.skipBlanks rest).isEmpty then some value else none

/-- Reads a document that is held with all its parts. -/
def Json.ofText? (s : String) : Option Json := (Json.outline? s).filter Json.isHeld

end Haulage

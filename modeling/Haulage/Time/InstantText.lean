/-
Module: Haulage.Time.InstantText
Purpose: Instants as text: a date and a time of day, with an offset from universal time.
Main exports: Instant.text, Instant.ofText?
-/
import Haulage.Text.Scan
import Haulage.Time.Calendar
import Haulage.Time.Instant

namespace Haulage

namespace Instant

/-! ### Writing -/

/-- A year in four digits; before the year 0 it takes a sign and six. -/
def yearText (year : Int) : String :=
  if year < 0 then "-" ++ padded 6 year.natAbs else padded 4 year.natAbs

/-- An instant in universal time, with as many digits of the second as it has. -/
def text (t : Instant) : String :=
  let seconds := t.nanoseconds / Duration.perSecond
  let fraction := (t.nanoseconds % Duration.perSecond).toNat
  let date := Date.ofDayNumber (seconds / 86400)
  let secondOfDay := (seconds % 86400).toNat
  yearText date.year ++ "-" ++ padded 2 date.month ++ "-" ++ padded 2 date.day ++ "T" ++
    padded 2 (secondOfDay / 3600) ++ ":" ++ padded 2 (secondOfDay / 60 % 60) ++ ":" ++
    padded 2 (secondOfDay % 60) ++ trimmedFraction 9 fraction ++ "Z"

/-! ### Reading -/

/-- A year of four digits, or of a sign and six; the year 0 takes no minus. -/
def readYear : List Char → Option (Int × List Char)
  | '-' :: cs => do
    let (n, rest) ← Scan.fixed 6 cs
    if n = 0 ∨ 9999 < n then none else some (-(n : Int), rest)
  | '+' :: cs => do
    let (n, rest) ← Scan.fixed 6 cs
    if 9999 < n then none else some ((n : Int), rest)
  | cs => do
    let (n, rest) ← Scan.fixed 4 cs
    some ((n : Int), rest)

/-- A date, with hyphens between all its parts or between none. -/
def readDate (cs : List Char) : Option (Date × List Char) := do
  let (year, rest) ← readYear cs
  let (month, day, rest) ← match rest with
    | '-' :: rest => do
      let (month, rest) ← Scan.pair 12 rest
      match rest with
      | '-' :: rest => do
        let (day, rest) ← Scan.pair 31 rest
        some (month, day, rest)
      | _ => none
    | rest => do
      let (month, rest) ← Scan.pair 12 rest
      let (day, rest) ← Scan.pair 31 rest
      some (month, day, rest)
  let date : Date := ⟨year, month, day⟩
  if date.IsValid then some (date, rest) else none

/-- Whether another part of a time of day follows, and the text from there on.  Parts are set apart
by colons throughout, or not at all. -/
def nextTimePart (colons : Bool) (cs : List Char) : Option (List Char) :=
  if colons then
    match cs with
    | ':' :: rest => some rest
    | _ => none
  else if (Scan.fixed 2 cs).isSome then some cs else none

/-- The nanoseconds that a time of day lies after midnight.  Minutes and seconds may be missing;
a leap second counts as the second before it. -/
def readTimeOfDay (cs : List Char) : Option (Nat × List Char) := do
  let (hour, rest) ← Scan.pair 23 cs
  let colons := rest.head? = some ':'
  match nextTimePart colons rest with
  | none => some (hour * 3600 * 1000000000, rest)
  | some rest => do
    let (minute, rest) ← Scan.pair 59 rest
    let toMinute := (hour * 60 + minute) * 60
    match nextTimePart colons rest with
    | none => some (toMinute * 1000000000, rest)
    | some rest => do
      let (second, rest) ← Scan.pair 60 rest
      let (fraction, rest) ← Scan.fraction rest
      some ((toMinute + min second 59) * 1000000000 + fraction.getD 0, rest)

/-- The seconds of an offset behind its sign: hours, and perhaps minutes and seconds.  A fraction of
a second is rounded, a half away from zero.  An offset stays below 26 hours. -/
def readOffsetClock (cs : List Char) : Option (Nat × List Char) := do
  let (hour, rest) ← Scan.pair 25 cs
  let colons := rest.head? = some ':'
  match nextTimePart colons rest with
  | none => some (hour * 3600, rest)
  | some rest => do
    let (minute, rest) ← Scan.pair 59 rest
    let toMinute := (hour * 60 + minute) * 60
    match nextTimePart colons rest with
    | none => some (toMinute, rest)
    | some rest => do
      let (second, rest) ← Scan.pair 59 rest
      let (fraction, rest) ← Scan.fraction rest
      let offset := toMinute + second + (if 500000000 ≤ fraction.getD 0 then 1 else 0)
      if offset < 26 * 3600 then some (offset, rest) else none

/-- The seconds of an offset from universal time: the letter for none, or a sign and a clock. -/
def readOffset : List Char → Option (Int × List Char)
  | 'Z' :: cs => some (0, cs)
  | 'z' :: cs => some (0, cs)
  | '+' :: cs => (readOffsetClock cs).map fun (n, rest) => ((n : Int), rest)
  | '-' :: cs => (readOffsetClock cs).map fun (n, rest) => (-(n : Int), rest)
  | _ => none

/-! ### Annotations

Notes in brackets may follow: first a time zone, by its name or by its offset, and then keys with
their values.  They do not change the instant.  An exclamation mark says that a note must not be
passed over, which is refused for a key, since none is known. -/

/-- One part of the name of a time zone. -/
def skipZonePart : List Char → Option (List Char)
  | c :: cs =>
    let isLetter (c : Char) : Bool := c.isAlpha || c = '_' || c = '.'
    if isLetter c then
      some (cs.dropWhile fun c => isLetter c || c.isDigit || c = '+' || c = '-')
    else none
  | [] => none

/-- The name of a time zone, in parts with slashes between them, up to the closing bracket.  The
fuel bounds the number of parts. -/
def skipZoneName : Nat → List Char → Option (List Char)
  | 0, _ => none
  | fuel + 1, cs => do
    match ← skipZonePart cs with
    | ']' :: rest => some rest
    | '/' :: rest => skipZoneName fuel rest
    | _ => none

/-- The hours and minutes of an offset, behind its sign and up to the closing bracket. -/
def skipZoneOffset (cs : List Char) : Option (List Char) := do
  let (_, rest) ← Scan.pair 25 cs
  let rest ← match nextTimePart (rest.head? = some ':') rest with
    | none => some rest
    | some rest => (Scan.pair 59 rest).map (·.2)
  match rest with
  | ']' :: rest => some rest
  | _ => none

/-- The value of a key, in parts with hyphens between them, up to the closing bracket.  The fuel
bounds the number of parts. -/
def skipKeyValue : Nat → List Char → Option (List Char)
  | 0, _ => none
  | fuel + 1, cs =>
    let rest := cs.dropWhile Char.isAlphanum
    if rest.length = cs.length then none
    else match rest with
      | ']' :: rest => some rest
      | '-' :: rest => skipKeyValue fuel rest
      | _ => none

/-- A key with its value, behind the opening bracket. -/
def skipKey : List Char → Option (List Char)
  | c :: cs =>
    let isLetter (c : Char) : Bool := c.isLower || c = '_'
    if isLetter c then
      match cs.dropWhile fun c => isLetter c || c.isDigit || c = '-' with
      | '=' :: rest => skipKeyValue rest.length rest
      | _ => none
    else none
  | [] => none

/-- A time zone behind the opening bracket and its mark. -/
def skipZone : List Char → Option (List Char)
  | '+' :: cs => skipZoneOffset cs
  | '-' :: cs => skipZoneOffset cs
  | cs => skipZoneName cs.length cs

/-- Keys with their values, each in brackets, to the end of the text.  The fuel bounds their
number. -/
def areKeys : Nat → List Char → Bool
  | _, [] => true
  | fuel + 1, '[' :: cs => (skipKey cs).any (areKeys fuel)
  | _, _ => false

/-- Whether a text consists of annotations. -/
def areAnnotations (cs : List Char) : Bool :=
  match cs with
  | '[' :: '!' :: rest => (skipZone rest).any fun rest => areKeys rest.length rest
  | '[' :: rest =>
    areKeys cs.length cs || (skipZone rest).any fun rest => areKeys rest.length rest
  | cs => cs.isEmpty

/-- Reads an instant: a date, a letter or a blank, a time of day, an offset and annotations. -/
def ofText? (s : String) : Option Instant := do
  let (date, rest) ← readDate s.toList
  match rest with
  | c :: rest =>
    if c = 'T' ∨ c = 't' ∨ c = ' ' then do
      let (ofDay, rest) ← readTimeOfDay rest
      let (offset, rest) ← readOffset rest
      let t : Instant :=
        ⟨(date.dayNumber * 86400 - offset) * Duration.perSecond + (ofDay : Int)⟩
      if areAnnotations rest ∧ t.InCalendar then some t else none
    else none
  | [] => none

end Instant

end Haulage

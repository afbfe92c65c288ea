/-
Module: Haulage.Time.DurationText
Purpose: Durations as text.  They are written in the form PT1H30M5S and read in that form, in the
  form of counted units (2 days 3 hours, 5m ago), or as hours, minutes and seconds between colons.
Main exports: Duration.text, Duration.ofText?, Duration.limitOfText, TimeUnit, DurationReading
-/
import Haulage.Text.Scan
import Haulage.Time.Duration

namespace Haulage

/-- The units in which durations are counted, the smallest first. -/
inductive TimeUnit where
  | nanosecond | microsecond | millisecond | second | minute | hour | day | week | month | year
deriving DecidableEq, Repr

namespace TimeUnit

/-- The place of a unit among all units. -/
def rank : TimeUnit → Nat
  | nanosecond => 0 | microsecond => 1 | millisecond => 2 | second => 3 | minute => 4
  | hour => 5 | day => 6 | week => 7 | month => 8 | year => 9

/-- The nanoseconds of a unit of fixed length; a day counts as 24 hours. -/
def nanoseconds? : TimeUnit → Option Nat
  | nanosecond => some 1
  | microsecond => some 1000
  | millisecond => some 1000000
  | second => some 1000000000
  | minute => some 60000000000
  | hour => some 3600000000000
  | day => some 86400000000000
  | week => some 604800000000000
  | month => none
  | year => none

/-- The most of a unit that a span of time holds where days are mixed with hours. -/
def mostInSpan : TimeUnit → Nat
  | nanosecond => 9223372036854775807
  | microsecond => 631107417600000000
  | millisecond => 631107417600000
  | second => 631107417600
  | minute => 10518456960
  | hour => 175307616
  | day => 7304484
  | week => 1043497
  | month => 239976
  | year => 19998

/-- The units of the clock. -/
def ofClock : List TimeUnit := [hour, minute, second, millisecond, microsecond, nanosecond]

/-- The nanoseconds of the most of a unit that a span holds. -/
def capacity (unit : TimeUnit) : Nat := unit.mostInSpan * (unit.nanoseconds?.getD 0)

/-- The nanoseconds for which a span has room in a unit of the clock and the smaller ones. -/
def room (unit : TimeUnit) : Nat :=
  (ofClock.filter (·.rank ≤ unit.rank)).foldl (fun room smaller => room + smaller.capacity) 0

/-- The nanoseconds of a fraction of a unit, given in billionths and cut off below a nanosecond.
Only units from the hour down to the microsecond are divided. -/
def fraction? (unit : TimeUnit) (billionths : Nat) : Option Nat :=
  match unit with
  | hour => some (billionths * 3600)
  | minute => some (billionths * 60)
  | second => some billionths
  | millisecond => some (billionths / 1000)
  | microsecond => some (billionths / 1000000)
  | _ => none

/-- The unit that a letter stands for in front of the letter T. -/
def ofDateLetter? (c : Char) : Option TimeUnit :=
  match c.toUpper with
  | 'Y' => some year
  | 'M' => some month
  | 'W' => some week
  | 'D' => some day
  | _ => none

/-- The unit that a letter stands for behind the letter T. -/
def ofTimeLetter? (c : Char) : Option TimeUnit :=
  match c.toUpper with
  | 'H' => some hour
  | 'M' => some minute
  | 'S' => some second
  | _ => none

/-- The names of the units in counted durations. -/
def names : List (String × TimeUnit) :=
  [("years", year), ("year", year), ("yrs", year), ("yr", year), ("y", year),
   ("months", month), ("month", month), ("mos", month), ("mo", month),
   ("weeks", week), ("week", week), ("wks", week), ("wk", week), ("w", week),
   ("days", day), ("day", day), ("d", day),
   ("hours", hour), ("hour", hour), ("hrs", hour), ("hr", hour), ("h", hour),
   ("minutes", minute), ("minute", minute), ("mins", minute), ("min", minute), ("m", minute),
   ("seconds", second), ("second", second), ("secs", second), ("sec", second), ("s", second),
   ("milliseconds", millisecond), ("millisecond", millisecond), ("millis", millisecond),
   ("milli", millisecond), ("msecs", millisecond), ("msec", millisecond), ("ms", millisecond),
   ("microseconds", microsecond), ("microsecond", microsecond), ("micros", microsecond),
   ("micro", microsecond), ("usecs", microsecond), ("usec", microsecond), ("us", microsecond),
   ("\u00b5secs", microsecond), ("\u00b5sec", microsecond), ("\u00b5s", microsecond),
   ("nanoseconds", nanosecond), ("nanosecond", nanosecond), ("nanos", nanosecond),
   ("nano", nanosecond), ("nsecs", nanosecond), ("nsec", nanosecond), ("ns", nanosecond)]

/-- The longest name of a unit at the front of a text, and what follows it. -/
def readName (cs : List Char) : Option (TimeUnit × List Char) :=
  let longest := names.foldl (fun (best : Option (Nat × TimeUnit)) (name, unit) =>
    let length := name.length
    if cs.take length = name.toList && (best.all fun (known, _) => known < length) then
      some (length, unit)
    else best) none
  longest.map fun (length, unit) => (unit, cs.drop length)

end TimeUnit

/-- What a text says of a duration: counts of units, the larger units first, and a fraction of the
last unit in billionths. -/
structure DurationReading where
  isNegative : Bool
  parts : List (TimeUnit × Nat)
  fraction : Option Nat
deriving Repr

namespace DurationReading

/-- The nanoseconds of the fraction, which belongs to the last unit. -/
def fractionNanoseconds? (r : DurationReading) : Option Nat :=
  match r.fraction, r.parts.getLast? with
  | none, _ => some 0
  | some billionths, some (unit, _) => unit.fraction? billionths
  | some _, none => none

/-- The duration of a sum of nanoseconds with the sign of the reading. -/
def signed (r : DurationReading) (nanoseconds : Nat) : Duration :=
  ⟨if r.isNegative then -(nanoseconds : Int) else nanoseconds⟩

/-- The nanoseconds of some counts together, unless a month or a year is counted. -/
def countedNanoseconds? (parts : List (TimeUnit × Nat)) : Option Nat :=
  parts.foldlM (fun sum (unit, count) =>
    match unit.nanoseconds? with
    | some n => some (sum + count * n)
    | none => if count = 0 then some sum else none) 0

/-- The nanoseconds counted in a unit and in smaller ones, with the fraction. -/
def nanosecondsFrom? (r : DurationReading) (unit : TimeUnit) : Option Nat := do
  return (← countedNanoseconds? (r.parts.filter (·.1.rank ≤ unit.rank))) +
    (← r.fractionNanoseconds?)

/-- All nanoseconds of a reading. -/
def nanoseconds? (r : DurationReading) : Option Nat := r.nanosecondsFrom? .year

/-- The duration, where hours are the largest unit allowed. -/
def clockTime? (r : DurationReading) : Option Duration := do
  let most := if r.isNegative then 9223372036854775808 else 9223372036854775807
  if r.parts.isEmpty then none
  if r.parts.any fun (unit, count) => TimeUnit.hour.rank < unit.rank || most < count then none
  let d := r.signed (← r.nanoseconds?)
  if d.Holds then some d else none

/-- Whether a span of time holds what is counted in a unit.  A unit of the calendar holds its own
count.  What a unit of the clock does not hold is carried on to the smaller ones, so there has to be
room for it together with all that is counted in those. -/
def fits (r : DurationReading) (unit : TimeUnit) (count : Nat) : Bool :=
  if unit.rank ≤ TimeUnit.hour.rank then (r.nanosecondsFrom? unit).any (· ≤ unit.room)
  else decide (count ≤ unit.mostInSpan)

/-- The duration, where days of 24 hours and weeks of seven days are allowed. -/
def span? (r : DurationReading) : Option Duration := do
  if r.parts.isEmpty || !r.parts.all fun (unit, count) => r.fits unit count then none
  let d := r.signed (← r.nanoseconds?)
  if d.Holds then some d else none

/-! ### Counts with letters -/

/-- Counts in front of the letter T, each of a smaller unit than the one before. -/
def readDateParts (below : Nat) (cs : List Char) :
    Option (List (TimeUnit × Nat) × List Char) :=
  match Scan.count cs with
  | ([], _) => some ([], cs)
  | (ds, c :: rest) => do
    let unit ← TimeUnit.ofDateLetter? c
    if _h : unit.rank < below then
      let (parts, rest) ← readDateParts unit.rank rest
      some ((unit, Scan.value ds) :: parts, rest)
    else none
  | (_, []) => none
termination_by below

/-- Counts behind the letter T.  A fraction ends them. -/
def readTimeParts (below : Nat) (cs : List Char) :
    Option (List (TimeUnit × Nat) × Option Nat × List Char) :=
  match Scan.count cs with
  | ([], _) => some ([], none, cs)
  | (ds, rest) => do
    let (fraction, rest) ← Scan.fraction rest
    match rest with
    | c :: rest => do
      let unit ← TimeUnit.ofTimeLetter? c
      if _h : unit.rank < below then
        if fraction.isSome then
          some ([(unit, Scan.value ds)], fraction, rest)
        else
          let (parts, fraction, rest) ← readTimeParts unit.rank rest
          some ((unit, Scan.value ds) :: parts, fraction, rest)
      else none
    | [] => none
termination_by below

/-- Reads counts with letters behind the letter P. -/
def ofLetters? (isNegative : Bool) (cs : List Char) : Option DurationReading := do
  let (dateParts, rest) ← readDateParts 10 cs
  match rest with
  | [] => some ⟨isNegative, dateParts, none⟩
  | c :: rest =>
    if c = 'T' ∨ c = 't' then do
      let (timeParts, fraction, rest) ← readTimeParts TimeUnit.day.rank rest
      if rest.isEmpty && !timeParts.isEmpty then
        some ⟨isNegative, dateParts ++ timeParts, fraction⟩
      else none
    else none

/-! ### Counts with names -/

/-- Blank characters. -/
def isBlank (c : Char) : Bool :=
  c = ' ' || c = '\t' || c = '\n' || c = '\r' || c = '\x0c'

/-- The text without the blanks in front. -/
def skipBlanks (cs : List Char) : List Char := cs.dropWhile isBlank

/-- Minutes and seconds behind the hours of a time with colons. -/
def readColons (hours : Nat) (cs : List Char) :
    Option (List (TimeUnit × Nat) × Option Nat × List Char) :=
  match Scan.count cs with
  | ([], _) => none
  | (minutes, ':' :: rest) =>
    match Scan.count rest with
    | ([], _) => none
    | (seconds, rest) => do
      let (fraction, rest) ← Scan.fraction rest
      some ([(.hour, hours), (.minute, Scan.value minutes), (.second, Scan.value seconds)],
        fraction, rest)
  | _ => none

/-- Named counts from the first number on, each of a smaller unit than the one before.  A comma
after a unit announces another count, and a fraction or a time with colons ends them. -/
def readNamedParts (below : Nat) (count : Nat) (cs : List Char) :
    Option (List (TimeUnit × Nat) × Option Nat × List Char) :=
  match cs with
  | ':' :: rest => if TimeUnit.hour.rank < below then readColons count rest else none
  | cs => do
    let (fraction, rest) ← Scan.fraction cs
    let (unit, rest) ← TimeUnit.readName (skipBlanks rest)
    let comma := rest.head? = some ','
    let rest := if comma then rest.drop 1 else rest
    if comma && !(rest.head?.any isBlank) then none
    if _h : unit.rank < below then
      if fraction.isSome then
        if comma then none else some ([(unit, count)], fraction, rest)
      else
        match Scan.count (skipBlanks rest) with
        | ([], _) => if comma then none else some ([(unit, count)], none, rest)
        | (ds, after) => do
          let (parts, fraction, rest) ← readNamedParts unit.rank (Scan.value ds) after
          some ((unit, count) :: parts, fraction, rest)
    else none
termination_by below

/-- Reads named counts, with a sign in front or the word for the past behind. -/
def ofNames? (sign : Option Bool) (cs : List Char) : Option DurationReading :=
  match Scan.count cs with
  | ([], _) => none
  | (ds, rest) => do
    let (parts, fraction, rest) ← readNamedParts 10 (Scan.value ds) rest
    match rest with
    | [] => some ⟨sign.getD false, parts, fraction⟩
    | c :: _ =>
      if !isBlank c then none
      else match skipBlanks rest with
        | [] => some ⟨sign.getD false, parts, fraction⟩
        | ['a', 'g', 'o'] => if sign.isSome then none else some ⟨true, parts, fraction⟩
        | _ => none

/-- Reads a duration in either form; the letter P tells them apart. -/
def ofText? (s : String) : Option DurationReading :=
  let (sign, cs) : Option Bool × List Char := match s.toList with
    | '-' :: cs => (some true, cs)
    | '+' :: cs => (some false, cs)
    | cs => (none, cs)
  match cs with
  | c :: rest => if c = 'P' ∨ c = 'p' then ofLetters? (sign.getD false) rest else ofNames? sign cs
  | [] => none

end DurationReading

namespace Duration

/-- A duration in hours, minutes and seconds, without those that are zero. -/
def text (d : Duration) : String :=
  let n := d.nanoseconds.natAbs
  let seconds := n / 1000000000
  let part (count : Nat) (letter : String) : String :=
    if count = 0 then "" else toString count ++ letter
  let fraction := trimmedFraction 9 (n % 1000000000)
  let second :=
    if seconds % 60 = 0 ∧ n % 1000000000 = 0 then ""
    else toString (seconds % 60) ++ fraction ++ "S"
  if n = 0 then "PT0S"
  else
    (if d.isNegative then "-PT" else "PT") ++ part (seconds / 3600) "H" ++
      part (seconds / 60 % 60) "M" ++ second

/-- Reads a duration of hours and smaller units. -/
def ofText? (s : String) : Option Duration := (DurationReading.ofText? s).bind (·.clockTime?)

/-- Why a text gives no time limit. -/
inductive LimitError where
  | unreadable (text : String)
  | negative (text : String)
deriving DecidableEq, Repr

/-- The text of the complaint about a time limit. -/
def LimitError.message : LimitError → String
  | .unreadable text => s!"invalid duration: {text}"
  | .negative text => s!"duration must be positive: {text}"

/-- Reads a time limit: a duration, also one of days and weeks, or a plain number of seconds. -/
def limitOfText (s : String) : Except LimitError Duration :=
  let reading := DurationReading.ofText? s
  let readings := [reading.bind (·.clockTime?), reading.bind (·.span?),
    (Scan.int64? s.toList).map ofSeconds]
  match readings.findSome? id with
  | none => .error (.unreadable s)
  | some d => if d.isNegative then .error (.negative s) else .ok d

end Duration

end Haulage

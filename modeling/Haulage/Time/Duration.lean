/-
Module: Haulage.Time.Duration
Purpose: Spans of time in whole nanoseconds, and their exchange with numbers of seconds.
Main exports: Duration, Duration.plus, Duration.seconds, Duration.ofTravelTime
-/
import Haulage.Failure
import Haulage.Quantity

namespace Haulage

/-- A span of time, which may run backwards, in whole nanoseconds. -/
structure Duration where
  nanoseconds : Int
deriving DecidableEq, Repr, Inhabited

namespace Duration

/-- The nanoseconds of one second. -/
def perSecond : Int := 1000000000

/-- No time at all. -/
def zero : Duration := ⟨0⟩

/-- A whole number of seconds. -/
def ofSeconds (n : Int) : Duration := ⟨n * perSecond⟩

/-- The whole seconds of a duration, counted toward zero. -/
def wholeSeconds (d : Duration) : Int := d.nanoseconds.tdiv perSecond

/-- The nanoseconds of a duration beyond its whole seconds, with its sign. -/
def subsecond (d : Duration) : Int := d.nanoseconds.tmod perSecond

/-- Whether a duration runs backwards. -/
def isNegative (d : Duration) : Bool := decide (d.nanoseconds < 0)

/-- The shortest duration there is: both its seconds and its nanoseconds as far back as they go. -/
def least : Duration := ⟨leastInt64 * perSecond - (perSecond - 1)⟩

/-- The longest duration there is. -/
def greatest : Duration := ⟨greatestInt64 * perSecond + (perSecond - 1)⟩

/-- Whether the seconds of a duration fit 64 bits. -/
def Holds (d : Duration) : Prop :=
  least.nanoseconds ≤ d.nanoseconds ∧ d.nanoseconds ≤ greatest.nanoseconds

instance (d : Duration) : Decidable d.Holds := inferInstanceAs (Decidable (_ ∧ _))

/-- The sum of two durations, which has to be a duration again. -/
def plus (a b : Duration) : Except Failure Duration :=
  let sum : Duration := ⟨a.nanoseconds + b.nanoseconds⟩
  if sum.Holds then .ok sum else .error (.fault .beyondDurations)

theorem wholeSeconds_add_subsecond (d : Duration) :
    d.wholeSeconds * perSecond + d.subsecond = d.nanoseconds := by
  simp only [wholeSeconds, subsecond]
  rw [Int.mul_comm]
  exact Int.mul_tdiv_add_tmod d.nanoseconds perSecond

variable {α : Type} [Quantity α]

/-- A duration as a number of seconds. -/
def seconds (d : Duration) : α :=
  Quantity.ofInt d.wholeSeconds + Quantity.ofInt d.subsecond / Quantity.ofInt perSecond

/-- The duration of a number of seconds, to the nearest nanosecond.  Only a number whose seconds
fit 64 bits is a duration. -/
def ofTravelTime (x : α) : Except Fault Duration :=
  if !Quantity.isFinite x || decide (x < Quantity.ofInt leastInt64)
      || decide (Quantity.ofInt greatestInt64 < x) then
    .error .unusableTravelTime
  else
    let whole := Quantity.wholePart x
    let part := Quantity.nearest ((x - Quantity.ofInt whole) * Quantity.ofInt perSecond)
    .ok ⟨whole * perSecond + part⟩

end Duration

end Haulage

/-
Module: Haulage.Time.Instant
Purpose: Points in time, in whole nanoseconds since the start of the year 1970.
Main exports: Instant, Instant.after, Instant.since
-/
import Haulage.Time.Duration

namespace Haulage

/-- A point in time, in nanoseconds since the start of the year 1970. -/
structure Instant where
  nanoseconds : Int
deriving DecidableEq, Repr, Inhabited

namespace Instant

/-- The start of the year 1970. -/
def epoch : Instant := ⟨0⟩

/-- The first instant of the calendar.  It leaves room for any offset from universal time. -/
def least : Instant := ⟨-377705023201 * Duration.perSecond⟩

/-- The last instant of the calendar. -/
def greatest : Instant := ⟨253402207200 * Duration.perSecond + (Duration.perSecond - 1)⟩

/-- Whether the calendar covers an instant. -/
def InCalendar (t : Instant) : Prop :=
  least.nanoseconds ≤ t.nanoseconds ∧ t.nanoseconds ≤ greatest.nanoseconds

instance (t : Instant) : Decidable t.InCalendar := inferInstanceAs (Decidable (_ ∧ _))

instance : LE Instant := ⟨fun a b => a.nanoseconds ≤ b.nanoseconds⟩

instance : LT Instant := ⟨fun a b => a.nanoseconds < b.nanoseconds⟩

instance : DecidableLE Instant :=
  fun a b => inferInstanceAs (Decidable (a.nanoseconds ≤ b.nanoseconds))

instance : DecidableLT Instant :=
  fun a b => inferInstanceAs (Decidable (a.nanoseconds < b.nanoseconds))

theorem lt_iff {a b : Instant} : a < b ↔ a.nanoseconds < b.nanoseconds := Iff.rfl

/-- The instant a duration later, which the calendar has to cover. -/
def after (t : Instant) (d : Duration) : Except Failure Instant :=
  let later : Instant := ⟨t.nanoseconds + d.nanoseconds⟩
  if later.InCalendar then .ok later else .error (.fault .beyondCalendar)

/-- The time that passes from `start` to `t`. -/
def since (t start : Instant) : Duration := ⟨t.nanoseconds - start.nanoseconds⟩

theorem after_eq_ok {t u : Instant} {d : Duration} (h : t.after d = .ok u) :
    u.nanoseconds = t.nanoseconds + d.nanoseconds := by
  simp only [after] at h
  split at h
  · cases h; rfl
  · cases h

end Instant

end Haulage

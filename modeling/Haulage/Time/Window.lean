/-
Module: Haulage.Time.Window
Purpose: The time within which a destination wants to be reached.
Main exports: TimeWindow, TimeWindow.startMiss, TimeWindow.endMiss, TimeWindow.serviceStart
-/
import Haulage.Time.Instant

namespace Haulage

/-- A time window, open at each end that is missing. -/
structure TimeWindow where
  opens : Option Instant
  closes : Option Instant
deriving DecidableEq, Repr, Inhabited

namespace TimeWindow

/-- The window that is open at both ends. -/
def always : TimeWindow := ⟨none, none⟩

/-- Whether a window says nothing. -/
def isEmpty (w : TimeWindow) : Bool := w.opens.isNone && w.closes.isNone

variable {α : Type} [Quantity α]

/-- The seconds by which an arrival is too early; negative when the window is open by then. -/
def startMiss (w : TimeWindow) (arrival : Instant) : Option α :=
  w.opens.map fun opening => (opening.since arrival).seconds

/-- The seconds by which an arrival is too late; negative while the window is open. -/
def endMiss (w : TimeWindow) (arrival : Instant) : Option α :=
  w.closes.map fun closing => (arrival.since closing).seconds

/-- The seconds to wait for the window to open. -/
def earliness (w : TimeWindow) (arrival : Instant) : α :=
  Quantity.positivePart ((w.startMiss arrival).getD 0)

/-- The seconds by which the window is missed. -/
def lateness (w : TimeWindow) (arrival : Instant) : α :=
  Quantity.positivePart ((w.endMiss arrival).getD 0)

/-- Whether the window closes only after a vehicle has set out.  A window that is closed before
then is lost anyway, and being late for it does not count. -/
def isReachableFrom (w : TimeWindow) (departure : Instant) : Bool :=
  w.closes.all fun closing => decide (departure ≤ closing)

/-- The time at which service starts: on arrival, or when the window opens. -/
def serviceStart (w : TimeWindow) (arrival : Instant) : Instant :=
  match w.opens with
  | some opening => if arrival < opening then opening else arrival
  | none => arrival

theorem isEmpty_iff {w : TimeWindow} : w.isEmpty = true ↔ w = always := by
  obtain ⟨opens, closes⟩ := w
  cases opens <;> cases closes <;> simp [isEmpty, always]

/-- Service never starts before the arrival. -/
theorem le_serviceStart (w : TimeWindow) (arrival : Instant) :
    arrival ≤ w.serviceStart arrival := by
  unfold serviceStart
  split
  · split
    · rename_i h
      exact Int.le_of_lt h
    · exact Int.le_refl _
  · exact Int.le_refl _

end TimeWindow

end Haulage

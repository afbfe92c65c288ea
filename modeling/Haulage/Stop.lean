/-
Module: Haulage.Stop
Purpose: The stops of a route, and the numbers by which the things of a problem are known.
Main exports: Stop, Waypoint
-/

namespace Haulage

/-!
Locations, destinations, vehicles, profiles and bases are known by their positions in the lists of
a problem, counted from zero.  A job is a destination under its number, and the route of a vehicle
has the number of the vehicle.
-/

/-- A stop of a route: a destination is served, or a base is visited to unload. -/
inductive Stop where
  | destination (job : Nat)
  | base (base : Nat)
deriving DecidableEq, Repr, Inhabited

namespace Stop

/-- Whether the vehicle unloads here, which closes the trip it is on. -/
def isBase : Stop → Bool
  | .destination _ => false
  | .base _ => true

/-- Whether a destination is served here. -/
def isDestination (stop : Stop) : Bool := !stop.isBase

/-- The job served here, if any. -/
def job? : Stop → Option Nat
  | .destination j => some j
  | .base _ => none

/-- The base visited here, if any. -/
def base? : Stop → Option Nat
  | .destination _ => none
  | .base b => some b

/-- The name of a stop in messages. -/
def label : Stop → String
  | .destination j => s!"D({j})"
  | .base b => s!"B({b})"

@[simp] theorem isBase_destination (job : Nat) : (destination job).isBase = false := rfl

@[simp] theorem isBase_base (b : Nat) : (base b).isBase = true := rfl

theorem isDestination_iff {stop : Stop} :
    stop.isDestination = true ↔ ∃ job, stop = destination job := by
  cases stop <;> simp [isDestination]

end Stop

/-- Where a vehicle can be found along its route: before the first stop, at a stop, or after the
last one. -/
inductive Waypoint where
  | start
  | at (stop : Stop)
  | finish
deriving DecidableEq, Repr, Inhabited

namespace Waypoint

/-- Whether this is a base. -/
def isBase : Waypoint → Bool
  | .at stop => stop.isBase
  | _ => false

/-- Whether this is a destination. -/
def isDestination : Waypoint → Bool
  | .at stop => stop.isDestination
  | _ => false

end Waypoint

end Haulage

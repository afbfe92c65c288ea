/-
Module: Haulage.Problem.Vehicle
Purpose: Vehicles, their working time and what they carry on each trip.
Main exports: Shift, Vehicle, Vehicle.tripCapacity, VehicleParts, VehicleParts.build
-/
import Haulage.Load
import Haulage.Problem.Error
import Haulage.Time.Window

namespace Haulage

/-- The time within which a vehicle works, open at each end that is missing. -/
structure Shift where
  earliestStart : Option Instant
  latestEnd : Option Instant
deriving DecidableEq, Repr, Inhabited

/-- A vehicle. -/
structure Vehicle (α : Type) where
  id : String
  /-- The profile whose tables say how it travels. -/
  profile : Nat
  shift : Option Shift
  capacity : Load α
  /-- What it carries on its first trip, where that differs. -/
  firstTripCapacity : Option (Load α)
  depot : Option Nat
  returnsToDepot : Bool
  unloadDuration : Option Duration
  maximumDestinations : Option Nat
deriving Inhabited

namespace Vehicle

variable {α : Type}

/-- What the vehicle carries on a trip, trips being counted from zero. -/
def tripCapacity (v : Vehicle α) (trip : Nat) : Load α :=
  if trip = 0 then v.firstTripCapacity.getD v.capacity else v.capacity

/-- Where the vehicle ends its route: at the depot or wherever it is. -/
def endLocation (v : Vehicle α) : Option Nat :=
  if v.returnsToDepot then v.depot else none

/-- The earliest start of the shift, if any. -/
def earliestStart (v : Vehicle α) : Option Instant := v.shift.bind (·.earliestStart)

/-- The latest end of the shift, if any. -/
def latestEnd (v : Vehicle α) : Option Instant := v.shift.bind (·.latestEnd)

/-- The time at which the vehicle sets out unless a route says otherwise. -/
def departure (v : Vehicle α) : Instant := v.earliestStart.getD .epoch

/-- The time that the vehicle takes to unload. -/
def unloadTime (v : Vehicle α) : Duration := v.unloadDuration.getD .zero

@[simp] theorem tripCapacity_succ (v : Vehicle α) (trip : Nat) :
    v.tripCapacity (trip + 1) = v.capacity := by simp [tripCapacity]

end Vehicle

/-- What may be said of a vehicle before it is complete. -/
structure VehicleParts (α : Type) where
  id : Option String
  profile : Option Nat
  shift : Option Shift
  capacity : Option (Load α)
  firstTripCapacity : Option (Load α)
  depot : Option Nat
  returnsToDepot : Option Bool
  unloadDuration : Option Duration
  maximumDestinations : Option Nat

/-- The vehicle with the given parts: it needs a name. -/
def VehicleParts.build {α : Type} [Quantity α] (p : VehicleParts α) :
    Except ProblemError (Vehicle α) :=
  let capacity := p.capacity.getD .empty
  if capacity.isNegative || p.firstTripCapacity.any (·.isNegative) then .error .negativeCapacity
  else match p.id with
    | none => .error (.missing "external_id")
    | some id =>
      .ok { id := id, profile := p.profile.getD 0, shift := p.shift, capacity := capacity,
            firstTripCapacity := p.firstTripCapacity, depot := p.depot,
            returnsToDepot := p.returnsToDepot.getD false, unloadDuration := p.unloadDuration,
            maximumDestinations := p.maximumDestinations }

end Haulage

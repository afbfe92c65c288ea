/-
Module: Haulage.Problem.Destination
Purpose: Destinations, where a vehicle takes up a demand.
Main exports: Destination, DestinationParts, DestinationParts.build
-/
import Haulage.Load
import Haulage.Problem.Error
import Haulage.Time.Window

namespace Haulage

/-- A place at which a vehicle takes up a demand. -/
structure Destination (α : Type) where
  id : String
  location : Nat
  demand : Load α
  /-- The time that service takes. -/
  duration : Duration
  window : TimeWindow
deriving Inhabited

namespace Destination

variable {α : Type}

/-- Whether a destination wants to be reached at a certain time. -/
def hasWindow (d : Destination α) : Bool := !d.window.isEmpty

/-- The time at which a vehicle that arrives at `arrival` has finished here. -/
def endOfService (d : Destination α) (arrival : Instant) : Except Failure Instant :=
  (d.window.serviceStart arrival).after d.duration

end Destination

/-- What may be said of a destination before it is complete. -/
structure DestinationParts (α : Type) where
  id : Option String
  location : Option Nat
  demand : Option (Load α)
  duration : Option Duration
  window : Option TimeWindow

/-- The destination with the given parts: it needs a name and a location. -/
def DestinationParts.build {α : Type} [Quantity α] (p : DestinationParts α) :
    Except ProblemError (Destination α) :=
  let demand := p.demand.getD .empty
  if demand.isNegative then .error .negativeDemand
  else match p.id, p.location with
    | none, _ => .error (.missing "external_id")
    | some _, none => .error (.missing "location_id")
    | some id, some location =>
      .ok ⟨id, location, demand, p.duration.getD .zero, p.window.getD .always⟩

end Haulage

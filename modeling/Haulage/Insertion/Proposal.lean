/-
Module: Haulage.Insertion.Proposal
Purpose: Stops that are about to be inserted, and proposals of where to insert them.
Main exports: NewStop, Change, Proposal, Offer, Proposal.check, Proposal.apply
-/
import Haulage.Attempt
import Haulage.Plan.Basic

namespace Haulage

/-- A stop that is not in a route yet.  A base comes with the location where it would unload. -/
inductive NewStop where
  | destination (job : Nat)
  | base (base location : Nat) (duration : Duration)
deriving DecidableEq, Repr, Inhabited

namespace NewStop

variable {α : Type} [Quantity α]

/-- The stop itself. -/
def stop : NewStop → Stop
  | .destination job => .destination job
  | .base b _ _ => .base b

/-- Whether this is a base. -/
def isBase (s : NewStop) : Bool := s.stop.isBase

/-- Where the stop is. -/
def location (p : Problem α) : NewStop → Except Failure Nat
  | .destination job => do .ok (← p.destination job).location
  | .base _ location _ => .ok location

/-- What the stop adds to the load. -/
def demand (p : Problem α) : NewStop → Except Failure (Load α)
  | .destination job => do .ok (← p.destination job).demand
  | .base _ _ _ => .ok .empty

/-- The time at which a vehicle that arrives here has finished. -/
def endOfService (p : Problem α) (s : NewStop) (arrival : Instant) : Except Failure Instant :=
  match s with
  | .destination job => do (← p.destination job).endOfService arrival
  | .base _ _ duration => arrival.after duration

end NewStop

/-- A change of a plan that a proposal asks for. -/
inductive Change where
  | insert (route position : Nat) (stop : Stop)
  | place (base location : Nat) (duration : Duration)
  | switch (route vehicle : Nat) (departure : Instant)
deriving DecidableEq, Repr, Inhabited

/-- A proposal to insert a stop, and perhaps a base behind it, into a route.  Nothing is changed
until it is carried out. -/
structure Proposal where
  route : Nat
  /-- The position of the first stop to be inserted. -/
  position : Nat
  /-- The trip that takes up the stop. -/
  trip : Nat
  vehicle : Nat
  departure : Instant
  changes : List Change
deriving DecidableEq, Repr, Inhabited

/-- A proposal with its cost. -/
structure Offer (α : Type) where
  cost : α
  proposal : Proposal
deriving Inhabited

namespace Change

/-- The stop that a change inserts. -/
def inserted? : Change → Option Stop
  | .insert _ _ stop => some stop
  | _ => none

/-- Whether a change puts a base at a location. -/
def placesBase : Change → Bool
  | .place _ _ _ => true
  | _ => false

end Change

namespace Proposal

variable {α : Type} [Quantity α]

/-- Whether a base is placed, which closes a trip that was not there before. -/
def opensTrip (q : Proposal) : Bool := q.changes.any (·.placesBase)

/-- The first job that is inserted. -/
def job? (q : Proposal) : Option Nat :=
  q.changes.findSome? fun c => c.inserted?.bind (·.job?)

/-- Whether a stop could be inserted into some route. -/
def isAvailable (plan : Plan α) : Stop → Bool
  | .destination job => plan.isUnassigned job
  | .base b => plan.pool.isFree b

/-- Checks the insertions among some changes, `before` of which were checked already: each position
has to be within the route by then, and each stop available. -/
def checkChanges (plan : Plan α) (before : Nat) : List Change → Except Failure Unit
  | [] => .ok ()
  | .insert r position stop :: rest => do
    let route ← plan.route r
    if route.length + before < position then
      .error (.refused (.positionOutOfBounds position r))
    else if isAvailable plan stop then checkChanges plan (before + 1) rest
    else .error (.refused (.stopRouted stop))
  | _ :: rest => checkChanges plan before rest

/-- Checks whether a proposal can be carried out. -/
def check (plan : Plan α) (q : Proposal) : Except Failure Unit := checkChanges plan 0 q.changes

/-- Makes one change. -/
def applyChange (plan : Plan α) : Change → Except Failure (Plan α)
  | .insert r position stop => plan.insertStop r position stop
  | .place b location duration => plan.placeBase b location duration
  | .switch r vehicle departure => plan.switchVehicle r vehicle departure

/-- Makes all changes of a proposal, in their order. -/
def apply (q : Proposal) : Attempt (Plan α) Unit :=
  q.changes.forM fun change => do
    set (← Attempt.ofResult (applyChange (← get) change))

end Proposal

end Haulage

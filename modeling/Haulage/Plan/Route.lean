/-
Module: Haulage.Plan.Route
Purpose: The route of a vehicle: its stops in order and the times at which they are reached.
Main exports: Visit, Route, Route.reschedule, Route.transportCost, Route.windowCost
-/
import Haulage.Plan.Pool
import Haulage.Problem.Basic

namespace Haulage

/-- When a stop is reached and left, and how long the vehicle waits in between. -/
structure Visit where
  arrival : Instant
  departure : Instant
  waiting : Duration
deriving DecidableEq, Repr, Inhabited

/-- The route of a vehicle.  Times are those of the last time they were computed; stops may have
come and gone since. -/
structure Route where
  vehicle : Nat
  /-- The departure, where it was fixed with the vehicle; else the vehicle sets out as usual. -/
  fixedDeparture : Option Instant
  stops : List Stop
  visits : List Visit
  endArrival : Instant
deriving DecidableEq, Repr, Inhabited

variable {α : Type} [Quantity α]

namespace Problem

/-- Where a stop is, which for a base may be open. -/
def stopLocation (p : Problem α) (pool : BasePool) :
    Stop → Except Failure (Option Nat)
  | .destination job => do .ok (some (← p.destination job).location)
  | .base b => do .ok (← pool.base b).location

/-- The time at which a vehicle that arrives at a stop has finished there. -/
def endOfStop (p : Problem α) (pool : BasePool) (stop : Stop) (arrival : Instant) :
    Except Failure Instant :=
  match stop with
  | .destination job => do (← p.destination job).endOfService arrival
  | .base b => do arrival.after (← pool.base b).duration

/-- The time that a vehicle waits at a stop for service to start. -/
def waitingAt (p : Problem α) (stop : Stop) (arrival : Instant) : Except Failure Duration :=
  match stop with
  | .destination job => do
    .ok (((← p.destination job).window.serviceStart arrival).since arrival)
  | .base _ => .ok .zero

end Problem

namespace Route

/-- The route of a vehicle that stays at home. -/
def unused (p : Problem α) (v : Nat) : Except Failure Route := do
  .ok ⟨v, none, [], [], (← p.vehicle v).departure⟩

/-- Whether there are no stops. -/
def isEmpty (r : Route) : Bool := r.stops.isEmpty

/-- The number of stops. -/
def length (r : Route) : Nat := r.stops.length

/-- The number of destinations served. -/
def destinationCount (r : Route) : Nat := r.stops.countP (·.isDestination)

/-- The number of bases visited, which is the number of trips that are closed. -/
def baseCount (r : Route) : Nat := r.stops.countP (·.isBase)

/-- What comes right before a position. -/
def before (r : Route) (position : Nat) : Except Failure Waypoint :=
  match position with
  | 0 => .ok .start
  | i + 1 => do .ok (.at (← orOutOfTable r.stops[i]?))

/-- What stands at a position. -/
def next (r : Route) (position : Nat) : Waypoint :=
  match r.stops[position]? with
  | some stop => .at stop
  | none => .finish

/-- The time at which the vehicle sets out. -/
def departure (p : Problem α) (r : Route) : Except Failure Instant :=
  match r.fixedDeparture with
  | some t => .ok t
  | none => do .ok (← p.vehicle r.vehicle).departure

/-- The times at a position. -/
def visit (r : Route) (position : Nat) : Except Failure Visit := orOutOfTable r.visits[position]?

/-- Where a waypoint is. -/
def waypointLocation (p : Problem α) (pool : BasePool) (r : Route) :
    Waypoint → Except Failure (Option Nat)
  | .start => do .ok (← p.vehicle r.vehicle).depot
  | .finish => do .ok (← p.vehicle r.vehicle).endLocation
  | .at stop => p.stopLocation pool stop

/-! ### Times -/

/-- Travels on from a place, left at a certain time, through the given stops.  A base without a
location counts as lying at the stop before it.  The result holds the times at the stops, and
where and when the last one is left. -/
def visitsFrom (p : Problem α) (pool : BasePool) (v : Vehicle α) (place : Option Nat)
    (departure : Instant) : List Stop →
    Except Failure (List Visit × Option Nat × Instant)
  | [] => .ok ([], place, departure)
  | stop :: rest => do
    let here := (← p.stopLocation pool stop) <|> place
    let arrival ← p.arrival v place here departure
    let leaving ← p.endOfStop pool stop arrival
    let waiting ← p.waitingAt stop arrival
    let (visits, last) ← visitsFrom p pool v here leaving rest
    .ok (⟨arrival, leaving, waiting⟩ :: visits, last)

/-- Computes all times of a route anew. -/
def reschedule (p : Problem α) (pool : BasePool) (r : Route) : Except Failure Route := do
  let v ← p.vehicle r.vehicle
  let (visits, place, leaving) ← visitsFrom p pool v v.depot (← r.departure p) r.stops
  .ok { r with visits := visits, endArrival := ← p.arrival v place v.endLocation leaving }

/-! ### Costs -/

/-- The cost of travelling on from a place through the given stops to the end of the route, on top
of what was spent so far. -/
def costFrom (p : Problem α) (pool : BasePool) (v : Vehicle α) (place : Option Nat)
    (spent : α) : List Stop → Except Failure α
  | [] => do .ok (spent + (← p.travelCost v place v.endLocation))
  | stop :: rest => do
    let here := (← p.stopLocation pool stop) <|> place
    costFrom p pool v here (spent + (← p.travelCost v place here)) rest

/-- The cost of travel along a route.  A vehicle that stays at home costs nothing. -/
def transportCost (p : Problem α) (pool : BasePool) (r : Route) : Except Failure α :=
  if r.isEmpty then .ok 0
  else do
    let v ← p.vehicle r.vehicle
    costFrom p pool v v.depot 0 r.stops

/-- The seconds by which the given stops miss their windows, reached at the given times.  Lateness
counts only where the window can be reached by a vehicle that sets out at `departure`. -/
def missedSeconds (p : Problem α) (departure : Instant) (missed : α) :
    List Stop → List Visit → Except Failure α
  | [], _ => .ok missed
  | .base _ :: rest, visits => missedSeconds p departure missed rest (visits.drop 1)
  | .destination _ :: _, [] => .error (.fault .outOfTable)
  | .destination job :: rest, visit :: visits => do
    let window := (← p.destination job).window
    let missed := missed + window.earliness visit.arrival
    let missed :=
      if window.isReachableFrom departure then missed + window.lateness visit.arrival else missed
    missedSeconds p departure missed rest visits

/-- The seconds by which a route misses the windows of its destinations, times a weight. -/
def windowCost (p : Problem α) (r : Route) (weight : α) : Except Failure α := do
  let v ← p.vehicle r.vehicle
  .ok ((← missedSeconds p v.departure 0 r.stops r.visits) * weight)

end Route

end Haulage

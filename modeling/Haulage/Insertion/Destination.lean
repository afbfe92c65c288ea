/-
Module: Haulage.Insertion.Destination
Purpose: The cheapest way to serve a destination on a given route.
Main exports: Survey, Survey.scanTrips, Survey.openTrip, Survey.cheapest
-/
import Haulage.Insertion.Rules
import Haulage.Unload.Room

namespace Haulage

/-- What an evaluation looks at. -/
structure Survey (α : Type) where
  problem : Problem α
  plan : Plan α
  volumes : Volumes α
  pricing : WindowPricing α
  provider : LocationProvider α
  serviceTimes : ServiceTimes α
  /-- Whether trips may be opened that need another base. -/
  allowsNewTrips : Bool

namespace Survey

variable {α : Type} [Quantity α]

/-- The proposal of a trial, with a switch of the vehicle in front where it changes. -/
def propose (t : RouteTrial α) (route : Route) (position trip : Nat) (changes : List Change) :
    Proposal :=
  let switch : List Change :=
    if t.switchesVehicle route then [.switch t.route t.vehicleId t.departure] else []
  { route := t.route, position := position, trip := trip, vehicle := t.vehicleId,
    departure := t.departure, changes := switch ++ changes }

/-- The cheapest gap found so far and the trip that was given up. -/
structure ScanState (α : Type) where
  best : Option (α × Gap)
  brokenTrip : Option Nat

/-- Looks at one gap for a job.  The rest of a trip is passed over once it was given up, and a gap
counts only if it costs less than the best so far. -/
def lookAt (s : Survey α) (t : RouteTrial α) (job : Nat) (d : Destination α) (routeCost : α)
    (known : Bound α) (state : ScanState α) (gap : Gap) :
    Except Failure (ForInStep (ScanState α)) := do
  if state.brokenTrip = some gap.trip then .ok (.yield state)
  else
    let trial : Trial α :=
      { route := t.route, vehicle := t.vehicle, newStop := .destination job, gap := gap,
        load := s.plan.ledger.load t.route gap.trip,
        unloadLocation := s.plan.ledger.unloadLocation? t.route gap.trip }
    match ← trial.verdict s.problem s.plan s.volumes with
    | .breakTrip => .ok (.yield { state with brokenTrip := some gap.trip })
    | .continueScan => .ok (.yield state)
    | .fulfilled =>
      let windowCost ← trial.windowCost s.problem s.pricing s.plan
      let detour ← s.problem.detourCost t.vehicle gap.previousLocation d.location gap.nextLocation
      let cost := routeCost + windowCost + detour
      let bound : Bound α := match state.best with
        | some (best, _) => some best
        | none => known
      if bound.admits cost then .ok (.yield { state with best := some (cost, gap) })
      else .ok (.yield state)

/-- The cheapest gap within the trips of a route, if it costs less than what is known. -/
def scanTrips (s : Survey α) (t : RouteTrial α) (route : Route) (job : Nat) (d : Destination α)
    (routeCost : α) (known : Bound α) : Except Failure (Option (Offer α)) := do
  let state ← Walk.scan s.problem s.plan.pool t.vehicle
    (s.lookAt t job d routeCost known) (.start t.vehicle t.departure) ⟨none, none⟩ route.stops
  .ok (state.best.map fun (cost, gap) =>
    ⟨cost, propose t route gap.position gap.trip
      [.insert t.route gap.position (.destination job)]⟩)

/-- The job at the end of the route, closed by a base that is not in a route yet.  Both stops have
to keep the rules, and the site of the base has to take the whole new trip. -/
def openTrip (s : Survey α) (t : RouteTrial α) (route : Route) (job : Nat) (d : Destination α)
    (base : Nat) (routeCost : α) (known : Bound α) : Except Failure (Option (Offer α)) := do
  let p := s.problem
  let v := t.vehicle
  let tail ← Walk.tailGap p s.plan.pool v (.start v t.departure) route.stops
  let openLoad := s.plan.ledger.load t.route tail.trip
  let tripLoad := openLoad + d.demand
  let query : LocationQuery α :=
    { vehicle := v, isLastTrip := true, trip := tail.trip,
      fillPercent := tripLoad.fillPercent (v.tripCapacity tail.trip),
      counts := locationCounts s.plan.ledger t.route,
      previous := some d.location, next := tail.nextLocation }
  match ← cheapestLoadable p s.provider s.volumes query tripLoad with
  | none => .ok none
  | some location =>
    let jobTrial : Trial α :=
      { route := t.route, vehicle := v, newStop := .destination job,
        gap := { tail with next := .at (.base base), nextLocation := some location },
        load := openLoad, unloadLocation := some location }
    match ← jobTrial.verdict p s.plan s.volumes with
    | .breakTrip | .continueScan => .ok none
    | .fulfilled =>
      let leaving ← jobTrial.leaving p
      let baseArrival ← p.arrival v (some d.location) (some location) leaving
      let duration ← s.serviceTimes v location baseArrival
      let baseTrial : Trial α :=
        { route := t.route, vehicle := v, newStop := .base base location duration,
          gap := { position := tail.position + 1, previous := .at (.destination job),
                   next := .finish, previousLocation := some d.location,
                   nextLocation := tail.nextLocation, previousDeparture := leaving,
                   trip := tail.trip },
          load := tripLoad, unloadLocation := some location }
      match ← baseTrial.verdict p s.plan s.volumes with
      | .breakTrip | .continueScan => .ok none
      | .fulfilled =>
        let baseDetour ← p.detourCost v tail.previousLocation location tail.nextLocation
        let jobDetour ← p.detourCost v tail.previousLocation d.location (some location)
        let jobWindow ← jobTrial.windowCost p s.pricing s.plan
        let baseWindow ← baseTrial.windowCost p s.pricing s.plan
        let cost := routeCost + jobWindow + baseWindow + (baseDetour + jobDetour)
        if known.reachedBy cost then .ok none
        else
          .ok (some ⟨cost, propose t route tail.position tail.trip
            [.insert t.route tail.position (.destination job),
             .insert t.route (tail.position + 1) (.base base),
             .place base location duration]⟩)

/-- The cheapest way to serve a job on a route that costs less than what is known.  It is refused
when only a new trip would do and no base is left to close it. -/
def cheapest (s : Survey α) (r job vehicle : Nat) (departure : Instant) (known : Bound α) :
    Except Failure (Option (Offer α)) := do
  let route ← s.plan.route r
  let v ← s.problem.vehicle vehicle
  let t : RouteTrial α := ⟨r, vehicle, v, departure, .destination job⟩
  if !t.withinMaximum route then .ok none
  else
    let d ← s.problem.destination job
    let routeCost ← t.switchCost s.problem s.plan.pool route
    let best ← s.scanTrips t route job d routeCost known
    if s.allowsNewTrips && s.plan.ledger.needsBase r then
      match s.plan.pool.lowestFree?, best with
      | none, some offer => .ok (some offer)
      | none, none => .error (.refused .poolExhausted)
      | some base, _ =>
        let bound : Bound α := match best with
          | some offer => some offer.cost
          | none => known
        match ← s.openTrip t route job d base routeCost bound with
        | some offer => .ok (some offer)
        | none => .ok best
    else .ok best

/-- The cheapest way to serve a job on a route with the vehicle and the departure of the route. -/
def cheapestOnRoute (s : Survey α) (job : Nat) (known : Bound α) (r : Nat) :
    Except Failure (Option (Offer α)) := do
  let route ← s.plan.route r
  s.cheapest r job route.vehicle (← route.departure s.problem) known

end Survey

end Haulage

/-
Module: Haulage.Pass.Placement
Purpose: Choosing the location of every base anew.  Routes and their trips are visited in order,
  and a site that earlier trips have filled is not chosen any more.  A trip that no site can take
  is removed.
Main exports: Work, PlacementState, placeBases, Work.placeRoute, Work.placeAll
-/
import Haulage.Pass.Parameters

namespace Haulage

/-- A plan under way, with the volumes unloaded in it. -/
structure Work (α : Type) where
  plan : Plan α
  volumes : Volumes α
deriving Inhabited

/-- How far the visit of a route has come. -/
structure PlacementState (α : Type) where
  /-- The position of the first stop of the trip under way. -/
  tripStart : Nat
  /-- The stops of the trip under way that were passed. -/
  passed : Nat
  /-- The load of the trip under way. -/
  load : Load α
  /-- The number of trips that were placed. -/
  trip : Nat
  /-- Where they unload. -/
  counts : List LocationCount

namespace Work

variable {α : Type} [Quantity α]

/-- An operation on the volumes alone. -/
def onVolumes {β : Type} : Attempt (Volumes α) β → Attempt (Work α) β :=
  Attempt.within (·.volumes) fun w v => { w with volumes := v }

/-- An operation on the plan alone. -/
def onPlan {β : Type} : Attempt (Plan α) β → Attempt (Work α) β :=
  Attempt.within (·.plan) fun w plan => { w with plan := plan }

/-- What is known about the base at a position when a location is sought for it. -/
def placementQuery (p : Problem α) (plan : Plan α) (r : Nat) (s : PlacementState α) :
    Except Failure (LocationQuery α) := do
  let route ← plan.route r
  let position := s.tripStart + s.passed
  let v ← p.vehicle route.vehicle
  let previousStop ← match position with
    | 0 => .error (.fault .outOfTable)
    | i + 1 => orOutOfTable route.stops[i]?
  let previous ← p.stopLocation plan.pool previousStop
  let next ← match route.stops[position + 1]? with
    | some stop => p.stopLocation plan.pool stop
    | none => .ok v.endLocation
  .ok { vehicle := v, isLastTrip := !(route.stops.drop (position + 1)).any (·.isBase),
        trip := s.trip, fillPercent := s.load.fillPercent (v.tripCapacity s.trip),
        counts := s.counts, previous := previous, next := next }

/-- Places a base at a location that was chosen for it. -/
def placeAt (p : Problem α) (settings : Settings α) (plan : Plan α) (r base location : Nat)
    (query : LocationQuery α) (position : Nat) : Except Failure (Plan α) := do
  let visit ← (← plan.route r).visit (position - 1)
  let arrival ← p.arrival query.vehicle query.previous (some location) visit.departure
  plan.placeBase base location (← settings.serviceTimes query.vehicle location arrival)

/-- Removes stops from a position on, the last one first.  The jobs among them are listed in route
order. -/
def removeStops (plan : Plan α) (r position : Nat) : Nat → Except Failure (List Nat × Plan α)
  | 0 => .ok ([], plan)
  | count + 1 => do
    let (stop, plan) ← plan.removeStop r (position + count)
    let (jobs, plan) ← removeStops plan r position count
    .ok (jobs ++ stop.job?.toList, plan)

/-- Visits the given stops of a route, which are those from the position of the visit on, and lists
the jobs of the trips that were removed. -/
def placeBases (p : Problem α) (settings : Settings α) (r : Nat) (s : PlacementState α) :
    List Stop → Attempt (Work α) (List Nat)
  | [] => pure []
  | .destination job :: rest => do
    let d ← Attempt.ofResult (p.destination job)
    placeBases p settings r { s with passed := s.passed + 1, load := s.load + d.demand } rest
  | .base b :: rest => do
    let w ← get
    let query ← Attempt.ofResult (placementQuery p w.plan r s)
    let chosen ← Attempt.ofResult (cheapestLoadable p settings.provider w.volumes query s.load)
    match chosen with
    | some location => do
      let plan ← Attempt.ofResult
        (placeAt p settings w.plan r b location query (s.tripStart + s.passed))
      set { w with plan := plan }
      let volumes ← Attempt.ofResult (w.volumes.add location s.load)
      let plan ← Attempt.ofResult (plan.refreshRoute p r)
      set (⟨plan, volumes⟩ : Work α)
      placeBases p settings r
        { tripStart := s.tripStart + s.passed + 1, passed := 0, load := .empty,
          trip := s.trip + 1, counts := countTrip location s.counts } rest
    | none => do
      let (jobs, plan) ← Attempt.ofResult (removeStops w.plan r s.tripStart (s.passed + 1))
      let plan ← Attempt.ofResult (plan.refreshRoute p r)
      set { w with plan := plan }
      let later ← placeBases p settings r { s with passed := 0, load := .empty } rest
      return jobs ++ later

/-- Places the bases of a route anew, after those that close no trip were removed. -/
def placeRoute (p : Problem α) (settings : Settings α) (r : Nat) :
    Attempt (Work α) (List Nat) := do
  let w ← get
  let (_, plan) ← Attempt.ofResult (w.plan.clearIdleBases r)
  let plan ← Attempt.ofResult (plan.refreshRoute p r)
  set { w with plan := plan }
  let route ← Attempt.ofResult (plan.route r)
  placeBases p settings r ⟨0, 0, .empty, 0, []⟩ route.stops

/-- Places the bases of some routes anew, and lists the jobs of the trips that were removed. -/
def placeRoutes (p : Problem α) (settings : Settings α) :
    List Nat → Attempt (Work α) (List Nat)
  | [] => pure []
  | r :: rest => do
    let jobs ← placeRoute p settings r
    let later ← placeRoutes p settings rest
    return jobs ++ later

/-- Places all bases anew, with volumes counted from nothing. -/
def placeAll (p : Problem α) (settings : Settings α) : Attempt (Work α) (List Nat) := do
  modify fun w => { w with volumes := w.volumes.clear }
  placeRoutes p settings (← get).plan.routeIds

end Work

end Haulage

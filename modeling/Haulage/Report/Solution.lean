/-
Module: Haulage.Report.Solution
Purpose: What is told about a plan: the stops of its routes with times and trips, the jobs that are
  left, and the totals.
Main exports: StopReport, RouteReport, SolutionReport, SolutionReport.ofPlan
-/
import Haulage.Document.Basic

namespace Haulage

/-- What is told about a stop. -/
inductive StopReport (α : Type) where
  | destination (id : String) (location trip : Nat) (arrival departure : Instant)
      (waiting : Duration)
  | base (id : String) (location : Option Nat) (trip : Nat) (arrival departure : Instant)
      (load : List α)
deriving Inhabited

/-- What is told about a route. -/
structure RouteReport (α : Type) where
  vehicle : String
  departure : Instant
  endTime : Instant
  transportCost : α
  tripCount : Nat
  stops : List (StopReport α)
deriving Inhabited

/-- What is told about a plan. -/
structure SolutionReport (α : Type) where
  /-- The routes of the vehicles that do not stay at home. -/
  routes : List (RouteReport α)
  unassigned : List (DestinationDocument α)
  transportCost : α
  tripCount : Nat
deriving Inhabited

/-- Whether the stop is a destination. -/
def StopReport.isDestination {α : Type} : StopReport α → Bool
  | .destination .. => true
  | .base .. => false

variable {α : Type} [Quantity α]

/-- Tells about the given stops of a route, of which the first is on a given trip.  A base belongs
to the trip that it closes. -/
def StopReport.ofStops (p : Problem α) (plan : Plan α) (r : Nat) (trip : Nat) :
    List Stop → List Visit → Except Failure (List (StopReport α))
  | [], _ => .ok []
  | _ :: _, [] => .error (.fault .outOfTable)
  | .destination job :: stops, visit :: visits => do
    let d ← p.destination job
    let later ← ofStops p plan r trip stops visits
    .ok (.destination d.id d.location trip visit.arrival visit.departure visit.waiting :: later)
  | .base b :: stops, visit :: visits => do
    let base ← plan.pool.base b
    let later ← ofStops p plan r (trip + 1) stops visits
    .ok (.base base.id base.location trip visit.arrival visit.departure
      (plan.ledger.load r trip).amounts :: later)

/-- Tells about a route. -/
def RouteReport.ofRoute (p : Problem α) (plan : Plan α) (r : Nat) :
    Except Failure (RouteReport α) := do
  let route ← plan.route r
  let v ← p.vehicle route.vehicle
  let stops ← StopReport.ofStops p plan r 0 route.stops route.visits
  .ok { vehicle := v.id, departure := ← route.departure p, endTime := route.endArrival,
        transportCost := ← route.transportCost p plan.pool,
        tripCount := plan.ledger.tripCount r, stops := stops }

/-- Tells about a plan. -/
def SolutionReport.ofPlan (p : Problem α) (plan : Plan α) : Except Failure (SolutionReport α) := do
  let used := plan.routeIds.filter fun r => !(plan.routes[r]?.all (·.isEmpty))
  let routes ← used.mapM (RouteReport.ofRoute p plan)
  let unassigned ← plan.unassigned.mapM fun job => do
    .ok (DestinationDocument.ofDestination (← p.destination job))
  .ok { routes := routes, unassigned := unassigned,
        transportCost := ← plan.transportCost p, tripCount := plan.tripCount }

end Haulage

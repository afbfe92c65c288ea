/-
Module: Haulage.Insertion.Base
Purpose: The first place in a route where a base may split a trip.
Main exports: Survey.firstPlace, Proposal.forcedCost
-/
import Haulage.Insertion.Destination

namespace Haulage

/-- The cost at which a base is said to be put into a route.  It is put where it is needed and does
not compete on cost, so this is the least double. -/
def Proposal.forcedCost : Float := Float.ofBits 0xffefffffffffffff

namespace Survey

variable {α : Type} [Quantity α]

/-- What is known of the load that a base in this gap would unload: the load up to the destination
before it. -/
def loadBefore (s : Survey α) (route : Nat) (gap : Gap) : Load α :=
  if gap.previous.isDestination then
    ((s.plan.ledger.stop? route (gap.position - 1)).map (·.load)).getD .empty
  else .empty

/-- Looks at one gap for a base.  The scan ends at the first gap that keeps the rules, and where
a trip is to be given up. -/
def lookForBase (s : Survey α) (t : RouteTrial α) (route : Route) (base : Nat)
    (counts : List LocationCount) (found : Option Proposal) (gap : Gap) :
    Except Failure (ForInStep (Option Proposal)) := do
  let p := s.problem
  let v := t.vehicle
  let load := s.loadBefore t.route gap
  let query : LocationQuery α :=
    { vehicle := v, isLastTrip := decide (gap.next = .finish), trip := gap.trip,
      fillPercent := load.fillPercent (v.tripCapacity gap.trip), counts := counts,
      previous := gap.previousLocation, next := gap.nextLocation }
  match ← cheapestLoadable p s.provider s.volumes query load with
  | none => .ok (.yield found)
  | some location =>
    let arrival ← p.arrival v gap.previousLocation (some location) gap.previousDeparture
    let duration ← s.serviceTimes v location arrival
    let trial : Trial α :=
      { route := t.route, vehicle := v, newStop := .base base location duration, gap := gap,
        load := load, unloadLocation := some location }
    match ← trial.verdict p s.plan s.volumes with
    | .fulfilled =>
      .ok (.done (some (propose t route gap.position gap.trip
        [.insert t.route gap.position (.base base), .place base location duration])))
    | .breakTrip => .ok (.done found)
    | .continueScan => .ok (.yield found)

/-- The first gap of a route in which a base keeps the rules, with the best location for the load
of the trip up to there. -/
def firstPlace (s : Survey α) (r base vehicle : Nat) (departure : Instant) :
    Except Failure (Option Proposal) := do
  if !s.plan.pool.isFree base then .error (.refused (.baseRouted base))
  else
    let v ← s.problem.vehicle vehicle
    let route ← s.plan.route r
    let t : RouteTrial α := ⟨r, vehicle, v, departure, .base base⟩
    Walk.scan s.problem s.plan.pool v
      (s.lookForBase t route base (locationCounts s.plan.ledger r)) (.start v departure) none
      route.stops

end Survey

end Haulage

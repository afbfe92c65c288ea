/-
Module: Haulage.Insertion.Rules
Purpose: The rules of where a stop may be inserted, and what an insertion costs beside travel.
Main exports: Trial, Verdict, Trial.verdict, WindowPricing, Trial.windowCost, RouteTrial
-/
import Haulage.Insertion.Gap
import Haulage.Insertion.Proposal
import Haulage.Unload.Volumes

namespace Haulage

/-- The answer of a rule on a gap. -/
inductive Verdict where
  /-- The stop may go here. -/
  | fulfilled
  /-- Not here, but perhaps in the next gap. -/
  | continueScan
  /-- Not here and nowhere else in this trip. -/
  | breakTrip
deriving DecidableEq, Repr, Inhabited

namespace Verdict

/-- The verdict of two rules together.  A break outweighs all else, and a continued scan outweighs
consent. -/
def join : Verdict → Verdict → Verdict
  | .breakTrip, _ => .breakTrip
  | _, .breakTrip => .breakTrip
  | .continueScan, _ => .continueScan
  | .fulfilled, v => v

@[simp] theorem join_eq_fulfilled {a b : Verdict} :
    join a b = .fulfilled ↔ a = .fulfilled ∧ b = .fulfilled := by
  cases a <;> cases b <;> decide

end Verdict

/-- A stop tried out on a route, perhaps with another vehicle. -/
structure RouteTrial (α : Type) where
  route : Nat
  /-- The vehicle that would serve the route. -/
  vehicleId : Nat
  vehicle : Vehicle α
  departure : Instant
  stop : Stop

/-- A stop tried out in one gap of a route. -/
structure Trial (α : Type) where
  route : Nat
  vehicle : Vehicle α
  newStop : NewStop
  gap : Gap
  /-- The load of the trip before the insertion. -/
  load : Load α
  /-- Where the trip unloads. -/
  unloadLocation : Option Nat

variable {α : Type} [Quantity α]

/-! ### Rules for a route as a whole -/

namespace RouteTrial

/-- Whether the vehicle of the route would change. -/
def switchesVehicle (t : RouteTrial α) (route : Route) : Bool :=
  decide (route.vehicle ≠ t.vehicleId)

/-- A route takes no more destinations than its vehicle may serve. -/
def withinMaximum (t : RouteTrial α) (route : Route) : Bool :=
  !t.stop.isDestination || t.vehicle.maximumDestinations.all (route.destinationCount < ·)

/-- The cost for a vehicle of reaching the first stop and leaving the last. -/
def accessCost (p : Problem α) (v : Vehicle α) (first last : Option Nat) : Except Failure α := do
  let access ← p.travelCost v v.depot first
  let egress ← p.travelCost v last v.endLocation
  .ok (access + egress)

/-- What another vehicle costs more on the ways from the depot and back. -/
def switchCost (p : Problem α) (pool : BasePool) (t : RouteTrial α) (route : Route) :
    Except Failure α :=
  match route.stops.head?, route.stops.getLast? with
  | some firstStop, some lastStop =>
    if t.switchesVehicle route then do
      let first ← p.stopLocation pool firstStop
      let last ← p.stopLocation pool lastStop
      let new ← accessCost p t.vehicle first last
      let old ← accessCost p (← p.vehicle route.vehicle) first last
      .ok (new - old)
    else .ok 0
  | _, _ => .ok 0

end RouteTrial

/-! ### Rules for a gap -/

namespace Trial

/-- The trip that takes up a destination stays within the capacity of the vehicle for that trip.
Nothing is put after the last base, nor into a trip that a base closes empty. -/
def capacityVerdict (p : Problem α) (plan : Plan α) (t : Trial α) : Except Failure Verdict :=
  match t.newStop with
  | .base _ _ _ => .ok .fulfilled
  | .destination job => do
    if t.gap.next = .finish then .ok .breakTrip
    else
      let route ← plan.route t.route
      if t.gap.next.isBase && t.gap.position < route.length && t.load.isEmpty then
        .ok .breakTrip
      else
        let demand := (← p.destination job).demand
        if (t.load + demand).fits (t.vehicle.tripCapacity t.gap.trip) then .ok .fulfilled
        else .ok .breakTrip

/-- The site where a trip unloads takes a demand that is added to the trip, and the site of a new
base takes the trip that the base closes. -/
def volumeVerdict (p : Problem α) (volumes : Volumes α) (t : Trial α) : Except Failure Verdict :=
  match t.newStop with
  | .base _ location _ => do
    if ← volumes.isLoadable location t.load then .ok .fulfilled else .ok .continueScan
  | .destination job =>
    match t.unloadLocation with
    | none => .ok .fulfilled
    | some location => do
      let demand := (← p.destination job).demand
      if ← volumes.isLoadable location demand then .ok .fulfilled else .ok .breakTrip

/-- A base never opens a route, and never stands next to another base. -/
def sequenceVerdict (t : Trial α) : Verdict :=
  if t.newStop.isBase
      && (decide (t.gap.previous = .start) || t.gap.previous.isBase || t.gap.next.isBase) then
    .continueScan
  else .fulfilled

/-- The verdict of all rules for a gap.  After a break no further rule is asked. -/
def verdict (p : Problem α) (plan : Plan α) (volumes : Volumes α) (t : Trial α) :
    Except Failure Verdict := do
  match ← t.capacityVerdict p plan with
  | .breakTrip => .ok .breakTrip
  | capacity =>
    match ← t.volumeVerdict p volumes with
    | .breakTrip => .ok .breakTrip
    | volume => .ok ((capacity.join volume).join t.sequenceVerdict)

/-! ### Times -/

/-- When the new stop is reached. -/
def arrival (p : Problem α) (t : Trial α) : Except Failure Instant := do
  p.arrival t.vehicle t.gap.previousLocation (some (← t.newStop.location p))
    t.gap.previousDeparture

/-- When the new stop is left. -/
def leaving (p : Problem α) (t : Trial α) : Except Failure Instant := do
  t.newStop.endOfService p (← t.arrival p)

/-- How many seconds later the next stop is reached. -/
def delay (p : Problem α) (t : Trial α) : Except Failure α := do
  let current ← p.arrival t.vehicle t.gap.previousLocation t.gap.nextLocation
    t.gap.previousDeparture
  let later ← p.arrival t.vehicle (some (← t.newStop.location p)) t.gap.nextLocation
    (← t.leaving p)
  .ok (later.since current).seconds

end Trial

/-! ### The cost of missed time windows -/

/-- How missed seconds are turned into costs. -/
structure WindowPricing (α : Type) where
  weight : α
  /-- The cost of one second. -/
  scale : α

namespace WindowPricing

/-- The seconds after which a window counts as fully missed. -/
def toleratedMiss : Int := 120

/-- When all windows of a problem are fully missed, this costs as much as the longest leg between
two destinations. -/
def forProblem (p : Problem α) (weight : α) : WindowPricing α :=
  let fullMiss : α := Quantity.ofInt p.windowCount * Quantity.ofInt toleratedMiss
  ⟨weight, if 0 < fullMiss then p.longestLeg / fullMiss else 0⟩

end WindowPricing

namespace Trial

/-- The slack before the gap, noted at the stop after it. -/
def pastSlack? (plan : Plan α) (t : Trial α) : Except Failure (Option (Slack α)) := do
  let route ← plan.route t.route
  if route.length ≤ t.gap.position then .ok (plan.ledger.endSlack? t.route)
  else .ok ((plan.ledger.stop? t.route t.gap.position).map (·.slack))

/-- The slack after the gap, noted at the stop before it. -/
def futureSlack? (plan : Plan α) (t : Trial α) : Option (Slack α) :=
  match t.gap.previous with
  | .start => plan.ledger.startSlack? t.route
  | _ => (plan.ledger.stop? t.route (t.gap.position - 1)).map (·.slack)

/-- The seconds by which windows are missed when the stop goes here, estimated from the slack
around the gap. -/
def missedSeconds (p : Problem α) (plan : Plan α) (t : Trial α) (d : Destination α) :
    Except Failure α := do
  let arrival ← t.arrival p
  let own := d.window.earliness arrival
  let own :=
    if d.window.isReachableFrom t.vehicle.departure then own + d.window.lateness arrival else own
  let withPast := match ← t.pastSlack? plan with
    | some s =>
      own + (Quantity.positivePart s.pastWaiting + Quantity.positivePart s.pastLateness)
    | none => own
  match t.futureSlack? plan with
  | some s => do
    let delay ← t.delay p
    let waiting := (s.futureWaiting.map fun x => Quantity.positivePart (x - delay)).getD 0
    let lateness := (s.futureLateness.map fun x => Quantity.positivePart (x + delay)).getD 0
    .ok (withPast + (waiting + lateness))
  | none => .ok withPast

/-- The cost of the windows that are missed when the stop goes here. -/
def windowCost (p : Problem α) (pricing : WindowPricing α) (plan : Plan α) (t : Trial α) :
    Except Failure α :=
  match t.newStop with
  | .base _ _ _ => .ok 0
  | .destination job =>
    if !p.hasWindows || pricing.scale == 0 then .ok 0
    else do
      let missed ← t.missedSeconds p plan (← p.destination job)
      .ok (missed * pricing.scale * pricing.weight)

end Trial

end Haulage

/-
Module: Haulage.Unload.Room
Purpose: Whether a closed trip of a route has room for a job, and where a trip unloads best.
Main exports: Room.isFull, Room.fillPercent, Room.markFullRoutes, cheapestLoadable
-/
import Haulage.Unload.Locations
import Haulage.Unload.Volumes

namespace Haulage

variable {α : Type} [Quantity α]

namespace Room

/-- Whether none of the given trips of a route can take a demand: the vehicle is full, or the
site where the trip unloads is.  A trip without a load in the ledger is not considered, and one
without an unload location is limited by the vehicle only. -/
def isFullFor (plan : Plan α) (volumes : Volumes α) (route : Nat) (v : Vehicle α)
    (demand : Load α) : List Nat → Except Failure Bool
  | [] => .ok true
  | trip :: rest =>
    match plan.ledger.load? route trip with
    | none => isFullFor plan volumes route v demand rest
    | some load =>
      if (load + demand).fits (v.tripCapacity trip) then do
        let loadable ← match plan.ledger.unloadLocation? route trip with
          | some location => volumes.isLoadable location demand
          | none => .ok true
        if loadable then .ok false
        else isFullFor plan volumes route v demand rest
      else isFullFor plan volumes route v demand rest

/-- Whether no closed trip of a route has room for a job. -/
def isFull (p : Problem α) (plan : Plan α) (volumes : Volumes α) (job route : Nat) :
    Except Failure Bool := do
  let d ← p.destination job
  let v ← p.vehicle (← plan.route route).vehicle
  isFullFor plan volumes route v d.demand (List.range (plan.ledger.tripCount route))

/-- How much of the vehicle a trip fills, in percent. -/
def fillPercent (p : Problem α) (plan : Plan α) (route trip : Nat) : Except Failure α := do
  let v ← p.vehicle (← plan.route route).vehicle
  .ok (((plan.ledger.load? route trip).map (·.fillPercent (v.tripCapacity trip))).getD 0)

/-- Notes for every route whether a job needs a new trip there. -/
def markFullRoutes (p : Problem α) (plan : Plan α) (volumes : Volumes α) (job : Nat) :
    Except Failure (Plan α) := do
  let full ← plan.routeIds.mapM (isFull p plan volumes job)
  let ledger := (plan.routeIds.zip full).foldl
    (fun (l : Ledger α) (route, needed) => (l.putNeedsBase route needed).2) plan.ledger
  .ok { plan with ledger := ledger }

end Room

/-! ### The best place to unload -/

/-- Looks for a cheaper location among candidates.  `best` is the cheapest one so far, with its
cost. -/
def cheapestAmong (p : Problem α) (volumes : Volumes α) (q : LocationQuery α) (load : Load α)
    (best : Option (Nat × α)) : List Nat → Except Failure (Option (Nat × α))
  | [] => .ok best
  | location :: rest => do
    if ← volumes.isLoadable location load then
      let access ← p.travelCost q.vehicle q.previous (some location)
      let egress ← p.travelCost q.vehicle (some location) q.next
      let cost := access + egress
      let bound : Bound α := best.map (·.2)
      let best := if bound.admits cost then some (location, cost) else best
      cheapestAmong p volumes q load best rest
    else cheapestAmong p volumes q load best rest

/-- The location with the smallest detour among those offered that can take the load.  Of equal
ones the first is chosen. -/
def cheapestLoadable (p : Problem α) (provider : LocationProvider α) (volumes : Volumes α)
    (q : LocationQuery α) (load : Load α) : Except Failure (Option Nat) := do
  let best ← cheapestAmong p volumes q load none (← provider.offers q)
  .ok (best.map (·.1))

end Haulage

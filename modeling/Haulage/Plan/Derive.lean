/-
Module: Haulage.Plan.Derive
Purpose: What the ledger holds about a route, derived from the stops of the route and the times at
  which they are reached.
Main exports: tripsFrom, futureMaxLoads, Miss, missesOf, pastMisses, futureMisses,
  RouteEntry.derive, Ledger.refresh
-/
import Haulage.Plan.Ledger
import Haulage.Plan.Route

namespace Haulage

variable {α : Type} [Quantity α]

/-! ### Trips

A base closes the trip before it.  The trip at the end that no base closes is entered as well,
without an unload location, as soon as it has a destination; it does not count as a trip.
-/

/-- The trips that follow when a trip with some load is under way, and the load at every stop.
`served` says whether the trip under way has a destination. -/
def tripsFrom (p : Problem α) (pool : BasePool) (load : Load α) (served : Bool) : List Stop →
    Except Failure (List (TripEntry α) × List (Load α))
  | [] => .ok (if served then [⟨some load, none⟩] else [], [])
  | .destination job :: rest => do
    let load := load + (← p.destination job).demand
    let (trips, loads) ← tripsFrom p pool load true rest
    .ok (trips, load :: loads)
  | .base b :: rest => do
    let location := (← pool.base b).location
    let (trips, loads) ← tripsFrom p pool .empty false rest
    .ok (⟨some load, location⟩ :: trips, load :: loads)

/-- The highest load of its trip from each stop on.  A base stands for itself. -/
def futureMaxLoads : List (Stop × Load α) → List (Load α)
  | [] => []
  | (.base _, load) :: rest => load :: futureMaxLoads rest
  | (.destination _, load) :: rest =>
    let later := futureMaxLoads rest
    let follows := match rest, later with
      | (.destination _, _) :: _, highest :: _ => highest
      | _, _ => .empty
    follows.atLeast load :: later

/-! ### Misses of time windows -/

/-- The seconds by which a stop is reached too early and too late, with their signs; absent where
there is nothing to miss. -/
structure Miss (α : Type) where
  early : Option α
  late : Option α
deriving Repr, Inhabited

/-- The misses of stops reached at the given times by a vehicle that could set out at
`departure`. -/
def missesOf (p : Problem α) (departure : Instant) : List Stop → List Visit →
    Except Failure (List (Miss α))
  | [], _ => .ok []
  | .base _ :: stops, visits => do
    .ok (⟨none, none⟩ :: (← missesOf p departure stops (visits.drop 1)))
  | .destination _ :: _, [] => .error (.fault .outOfTable)
  | .destination job :: stops, visit :: visits => do
    let window := (← p.destination job).window
    let late := if window.isReachableFrom departure then window.endMiss visit.arrival else none
    .ok (⟨window.startMiss visit.arrival, late⟩ :: (← missesOf p departure stops visits))

/-- The part of a miss above zero; what cannot be missed adds nothing. -/
def missed (miss : Option α) : α := (miss.map Quantity.positivePart).getD 0

/-- The waiting and the lateness added up before each stop and, last, before the end. -/
def pastMisses (waiting lateness : α) : List (Miss α) → List (α × α)
  | [] => [(waiting, lateness)]
  | m :: rest =>
    (waiting, lateness) :: pastMisses (waiting + missed m.early) (lateness + missed m.late) rest

/-- The largest misses from each stop on and, last, at the end.  A largest miss of the end counts
for every place before it. -/
def futureMisses (endLate : Option α) : List (Miss α) → List (Miss α)
  | [] => [⟨none, endLate⟩]
  | m :: rest =>
    let later := futureMisses endLate rest
    let following := later.head?.getD ⟨none, endLate⟩
    ⟨Quantity.largerPresent following.early m.early,
      Quantity.largerPresent following.late m.late⟩ :: later

/-! ### The entry of a route -/

namespace RouteEntry

/-- The entry that follows from the stops and times of a route.  The times must be up to date. -/
def derive (p : Problem α) (pool : BasePool) (r : Route) : Except Failure (RouteEntry α) := do
  let v ← p.vehicle r.vehicle
  let (trips, loads) ← tripsFrom p pool .empty false r.stops
  let highest := futureMaxLoads (r.stops.zip loads)
  let misses ← missesOf p v.departure r.stops r.visits
  let endLate := v.latestEnd.map fun latest => (r.endArrival.since latest).seconds
  let past := pastMisses 0 0 misses
  let future := futureMisses endLate misses
  let slackOf (before : α × α) (after : Miss α) : Slack α :=
    ⟨before.1, before.2, after.early, after.late⟩
  let slacks := List.zipWith slackOf past (future.drop 1)
  let entry (loads : Load α × Load α) (slack : Slack α) : StopEntry α :=
    ⟨loads.1, loads.2, slack⟩
  .ok {
    trips := trips
    tripCount := some r.baseCount
    needsBase := none
    stops := List.zipWith entry (loads.zip highest) slacks
    startSlack := future.head?.map (slackOf (0, 0))
    endSlack := past.getLast?.map fun before => slackOf before ⟨none, endLate⟩ }

end RouteEntry

/-- Enters anew what follows from the stops and times of a route.  Whether a new trip is needed is
kept. -/
def Ledger.refresh (p : Problem α) (pool : BasePool) (l : Ledger α) (r : Nat) (route : Route) :
    Except Failure (Ledger α) := do
  let entry ← RouteEntry.derive p pool route
  .ok (l.modifyEntry r fun old => { entry with needsBase := old.needsBase })

end Haulage

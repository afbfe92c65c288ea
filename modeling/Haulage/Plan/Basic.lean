/-
Module: Haulage.Plan.Basic
Purpose: A plan: the routes of all vehicles, the pool of bases, the ledger, and the jobs that are
  not assigned yet.
Main exports: Plan, Plan.empty, Plan.insertStop, Plan.removeStop, Plan.refreshRoute
-/
import Haulage.Plan.Derive

namespace Haulage

/-- A plan for a problem. -/
structure Plan (α : Type) where
  /-- One route for each vehicle. -/
  routes : List Route
  pool : BasePool
  ledger : Ledger α
  /-- The jobs that no route serves, the lowest first. -/
  unassigned : List Nat
deriving DecidableEq, Inhabited

namespace Plan

variable {α : Type} [Quantity α]

/-- The plan in which every vehicle stays at home, with a given pool of bases. -/
def withPool (p : Problem α) (pool : BasePool) : Except Failure (Plan α) := do
  let routes ← (List.range p.vehicles.size).mapM (Route.unused p)
  .ok ⟨routes, pool, .blank routes.length, List.range p.destinations.size⟩

/-- The plan in which every vehicle stays at home, with a base for each destination. -/
def empty (p : Problem α) : Except Failure (Plan α) :=
  withPool p (.forJobs p.destinations.size)

/-- A route by its number. -/
def route (plan : Plan α) (r : Nat) : Except Failure Route := orOutOfTable plan.routes[r]?

/-- The numbers of all routes. -/
def routeIds (plan : Plan α) : List Nat := List.range plan.routes.length

/-- Replaces a route. -/
def setRoute (plan : Plan α) (r : Nat) (route : Route) : Plan α :=
  { plan with routes := plan.routes.set r route }

/-- Whether no route serves a job. -/
def isUnassigned (plan : Plan α) (job : Nat) : Bool := plan.unassigned.contains job

/-- The first route that serves a job. -/
def routeOf? (plan : Plan α) (job : Nat) : Option Nat :=
  plan.routes.findIdx? fun r => r.stops.contains (.destination job)

/-- Adds a job to the unassigned ones, at its place in their order. -/
def addJob (job : Nat) : List Nat → List Nat
  | [] => [job]
  | other :: rest =>
    if job < other then job :: other :: rest
    else if job = other then other :: rest
    else other :: addJob job rest

/-! ### Totals -/

/-- The cost of travel along all routes. -/
def transportCost (p : Problem α) (plan : Plan α) : Except Failure α := do
  let costs ← (plan.routes.filter fun r => !r.isEmpty).mapM (Route.transportCost p plan.pool)
  .ok (Quantity.total costs)

/-- The number of closed trips on all routes, by the ledger. -/
def tripCount (plan : Plan α) : Nat :=
  plan.routeIds.foldl (fun n r => n + plan.ledger.tripCount r) 0

/-- Whether two plans have the same vehicles and stops in the same order, and the bases among the
stops at the same locations. -/
def sameAs (plan other : Plan α) : Except Failure Bool :=
  if plan.routes.length ≠ other.routes.length then .ok false
  else
    let sameBases : List Stop → Except Failure Bool := fun stops =>
      (stops.filterMap (·.base?)).foldlM (fun same b => do
        if same then
          .ok (decide ((← plan.pool.base b).location = (← other.pool.base b).location))
        else .ok false) true
    (plan.routes.zip other.routes).foldlM (fun same (a, b) =>
      if same && decide (a.vehicle = b.vehicle) && decide (a.stops = b.stops) then
        sameBases a.stops
      else .ok false) true

/-! ### Keeping derived data up to date -/

/-- Computes the times of a route anew, and what the ledger holds about it. -/
def refreshRoute (p : Problem α) (plan : Plan α) (r : Nat) : Except Failure (Plan α) := do
  let route ← (← plan.route r).reschedule p plan.pool
  .ok { plan.setRoute r route with ledger := ← plan.ledger.refresh p plan.pool r route }

/-- Refreshes every route. -/
def refreshRoutes (p : Problem α) (plan : Plan α) : Except Failure (Plan α) :=
  plan.routeIds.foldlM (refreshRoute p) plan

/-- Makes the pool agree with the routes. -/
def refreshBases (plan : Plan α) : Except Failure (Plan α) := do
  .ok { plan with pool := ← plan.pool.refresh (plan.routes.map (·.stops)) }

/-! ### Edits

An edit changes stops, pool and unassigned jobs together.  It leaves times and ledger alone. -/

/-- Inserts a stop at a position.  A destination has to be unassigned and a base free. -/
def insertStop (plan : Plan α) (r position : Nat) (stop : Stop) : Except Failure (Plan α) := do
  let route ← plan.route r
  if route.length < position then .error (.refused (.positionOutOfBounds position r))
  let inserted := plan.setRoute r { route with stops := route.stops.insertIdx position stop }
  match stop with
  | .destination job =>
    if plan.isUnassigned job then
      .ok { inserted with unassigned := plan.unassigned.erase job }
    else .error (.refused (.destinationAssigned job))
  | .base b =>
    match plan.pool.take? b with
    | some pool => .ok { inserted with pool := pool }
    | none => .error (.refused (.baseTaken b))

/-- Hands back a stop that was taken out of a route: a job becomes unassigned and a base goes back
to the pool. -/
def handBack (plan : Plan α) : Stop → Except Failure (Plan α)
  | .destination job => .ok { plan with unassigned := addJob job plan.unassigned }
  | .base b => do .ok { plan with pool := (← plan.pool.release b).2 }

/-- Removes the stop at a position and hands it back. -/
def removeStop (plan : Plan α) (r position : Nat) : Except Failure (Stop × Plan α) := do
  let route ← plan.route r
  let stop ← orOutOfTable route.stops[position]?
  let plan := plan.setRoute r { route with stops := route.stops.eraseIdx position }
  .ok (stop, ← plan.handBack stop)

/-- Removes a job from the first route that serves it, and says which one that was. -/
def removeJob (plan : Plan α) (job : Nat) : Except Failure (Option Nat × Plan α) :=
  match plan.routeOf? job with
  | none => .ok (none, plan)
  | some r => do
    let route ← plan.route r
    let position ← orOutOfTable (route.stops.idxOf? (.destination job))
    let (_, plan) ← plan.removeStop r position
    .ok (some r, plan)

/-- Puts a base at a location. -/
def placeBase (plan : Plan α) (b location : Nat) (duration : Duration) :
    Except Failure (Plan α) := do
  .ok { plan with pool := ← plan.pool.place b location duration }

/-- Gives a route another vehicle, and with it a fixed departure. -/
def switchVehicle (plan : Plan α) (r vehicle : Nat) (departure : Instant) :
    Except Failure (Plan α) := do
  let route ← plan.route r
  .ok (plan.setRoute r { route with vehicle := vehicle, fixedDeparture := some departure })

/-- Splits off the bases that close no trip, since they open the route or follow another base.
The first list holds the stops that stay. -/
def splitIdleBases (afterBase : Bool) : List Stop → List Stop × List Nat
  | [] => ([], [])
  | .destination job :: rest =>
    let (kept, idle) := splitIdleBases false rest
    (.destination job :: kept, idle)
  | .base b :: rest =>
    let (kept, idle) := splitIdleBases true rest
    if afterBase then (kept, b :: idle) else (.base b :: kept, idle)

/-- Removes the bases of a route that close no trip, hands them back, and counts them. -/
def clearIdleBases (plan : Plan α) (r : Nat) : Except Failure (Nat × Plan α) := do
  let route ← plan.route r
  let (kept, idle) := splitIdleBases true route.stops
  let plan := plan.setRoute r { route with stops := kept }
  .ok (idle.length, ← idle.foldlM (fun plan b => plan.handBack (.base b)) plan)

/-- Empties a route and forgets what the ledger holds about it. -/
def resetRoute (p : Problem α) (plan : Plan α) (r : Nat) : Except Failure (Plan α) := do
  let route ← plan.route r
  let plan ← route.stops.foldlM handBack plan
  let cleared ← { route with stops := [], fixedDeparture := none }.reschedule p plan.pool
  .ok { plan.setRoute r cleared with ledger := plan.ledger.clearRoute r }

end Plan

end Haulage

/-
Module: Haulage.Pass.Fill
Purpose: Assigning jobs, one after the other, each where it costs least; and putting a base into
  a route.
Main exports: Fill, Fill.bestOffer, Fill.commit, Fill.insertJobs, Fill.recreate, Fill.insertBase
-/
import Haulage.Insertion.Base
import Haulage.Pass.JobOrder
import Haulage.Pass.Placement

namespace Haulage

/-- An offer that was taken up, and how many jobs were unassigned after that. -/
structure Commit (α : Type) where
  offer : Offer α
  unassignedLeft : Nat
deriving Inhabited

/-- A pass under way. -/
structure Fill (α : Type) where
  work : Work α
  /-- Whether new trips are opened; no longer once the pool had no base for one. -/
  allowsNewTrips : Bool
  /-- The offers taken up so far, the last one first. -/
  commits : List (Commit α)
deriving Inhabited

namespace Fill

variable {α : Type} [Quantity α]

/-- A pass that has not begun. -/
def start (p : Problem α) (plan : Plan α) : Fill α := ⟨⟨plan, .ofSites p.sites⟩, true, []⟩

/-- An operation on plan and volumes. -/
def onWork {β : Type} : Attempt (Work α) β → Attempt (Fill α) β :=
  Attempt.within (·.work) fun f w => { f with work := w }

/-- Replaces the plan by another one, unless that could not be made. -/
def updatePlan (f : Plan α → Except Failure (Plan α)) : Attempt (Fill α) Unit := do
  let s ← get
  let plan ← Attempt.ofResult (f s.work.plan)
  set { s with work := { s.work with plan := plan } }

/-! ### The best offer -/

/-- The best offer so far, and whether some route lacked a base for a new trip. -/
structure Choice (α : Type) where
  best : Option (Offer α)
  poolExhausted : Bool

/-- Takes the answer of one more route into account.  An offer has to be cheaper than the best so
far; a lack of bases is noted, and any other failure ends the search. -/
def Choice.consider (c : Choice α) (answer : Except Failure (Option (Offer α))) :
    Except Failure (Choice α) :=
  match answer with
  | .ok none => .ok c
  | .ok (some offer) =>
    let isBetter := c.best.all fun best => decide (offer.cost < best.cost)
    .ok (if isBetter then { c with best := some offer } else c)
  | .error (.refused .poolExhausted) => .ok { c with poolExhausted := true }
  | .error e => .error e

/-- Asks one route after the other, each for an offer below the best so far. -/
def chooseInTurn (s : Survey α) (job : Nat) (c : Choice α) : List Nat → Except Failure (Choice α)
  | [] => .ok c
  | r :: rest => do
    let known : Bound α := c.best.map (·.cost)
    let c ← c.consider (s.cheapestOnRoute job known r)
    chooseInTurn s job c rest

/-- Asks all routes for their best offers before any two are compared. -/
def chooseSideBySide (s : Survey α) (job : Nat) (routes : List Nat) :
    Except Failure (Choice α) := do
  let answers ← routes.mapM fun r =>
    match s.cheapestOnRoute job none r with
    | .error (.fault fault) => .error (.fault fault)
    | answer => .ok answer
  answers.foldlM Choice.consider ⟨none, false⟩

/-- The best offer of all routes for a job; of equally good ones that of the lowest route. -/
def bestOffer (s : Survey α) (threads : Threads) (job : Nat) : Except Failure (Choice α) :=
  if threads.isParallel then chooseSideBySide s job s.plan.routeIds
  else chooseInTurn s job ⟨none, false⟩ s.plan.routeIds

/-! ### Taking up a proposal -/

/-- Carries out a proposal.  All insertions are checked before the first change, so a proposal that
cannot be carried out changes nothing.  The volumes are brought up to date: counted anew when a trip
was opened, and else by adding the demand where the trip unloads. -/
def commit (p : Problem α) (q : Proposal) : Attempt (Work α) Unit := do
  Attempt.ofResult (q.check (← get).plan)
  Work.onPlan q.apply
  let w ← get
  let plan ← Attempt.ofResult (w.plan.refreshRoute p q.route)
  set { w with plan := plan }
  if q.opensTrip then Work.onVolumes (Volumes.rebuild plan)
  else
    match plan.ledger.unloadLocation? q.route q.trip, q.job? with
    | some location, some job => do
      let d ← Attempt.ofResult (p.destination job)
      let volumes ← Attempt.ofResult (w.volumes.add location d.demand)
      set (⟨plan, volumes⟩ : Work α)
    | _, _ => pure ()

/-! ### Passes -/

/-- The turn of one job: it is assigned where it costs least, if anywhere. -/
def insertJob (p : Problem α) (settings : Settings α) (job : Nat) : Attempt (Fill α) Unit := do
  if (← get).work.plan.isUnassigned job then
    let f ← get
    let marked ← Attempt.ofResult (Room.markFullRoutes p f.work.plan f.work.volumes job)
    set { f with work := { f.work with plan := marked } }
    let survey := settings.survey p marked f.work.volumes f.allowsNewTrips
    let choice ← Attempt.ofResult (bestOffer survey settings.parameters.threads job)
    modify fun f => { f with allowsNewTrips := f.allowsNewTrips && !choice.poolExhausted }
    match choice.best with
    | none => pure ()
    | some offer => do
      onWork (commit p offer.proposal)
      modify fun f =>
        { f with commits := ⟨offer, f.work.plan.unassigned.length⟩ :: f.commits }

/-- Makes pool, times and ledger agree with the routes, and counts the volumes. -/
def prepare (p : Problem α) : Attempt (Fill α) Unit := do
  updatePlan (·.refreshBases)
  updatePlan (·.refreshRoutes p)
  let plan := (← get).work.plan
  onWork (Work.onVolumes (Volumes.rebuild plan))

/-- One pass over the given jobs in their order, which ends with all bases placed anew.  Gives the
jobs that are unassigned after that. -/
def insertJobs (p : Problem α) (settings : Settings α) (jobs : List Nat) :
    Attempt (Fill α) (List Nat) := do
  prepare p
  if !settings.isStopped then jobs.forM (insertJob p settings)
  let _ ← onWork (Work.placeAll p settings)
  return (← get).work.plan.unassigned

/-- One pass over all unassigned jobs, in the order that the settings ask for. -/
def recreate (p : Problem α) (settings : Settings α) : Attempt (Fill α) (List Nat) := do
  let jobs := (← get).work.plan.unassigned
  let generator := Generator.ofSeed settings.parameters.seed
  let (sorted, _) ← Attempt.ofResult (settings.parameters.order.sort p generator jobs)
  insertJobs p settings sorted

/-- Puts the lowest free base into a route, at the first place where it may go. -/
def insertBase (p : Problem α) (settings : Settings α) (r : Nat) :
    Attempt (Fill α) (Option Proposal) := do
  updatePlan (·.refreshBases)
  updatePlan (·.refreshRoute p r)
  let plan := (← get).work.plan
  onWork (Work.onVolumes (Volumes.rebuild plan))
  let volumes := (← get).work.volumes
  match plan.pool.lowestFree? with
  | none => throw (.refused .poolExhausted)
  | some base => do
    let route ← Attempt.ofResult (plan.route r)
    let departure ← Attempt.ofResult (route.departure p)
    let found ← Attempt.ofResult
      ((settings.survey p plan volumes true).firstPlace r base route.vehicle departure)
    match found with
    | none => return none
    | some proposal => do
      onWork (commit p proposal)
      return some proposal

end Fill

end Haulage

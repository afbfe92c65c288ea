/-
Module: Haulage.Proofs.Computed
Purpose: What proposals are computed from.  A job that joins a trip was tried out in one gap of the
  route, one that opens a trip in the gap at its tail with a base behind it, and a base that splits
  a trip in the gap in which it is put.
Main exports: BasePool.Locates, Survey.JoinsIn, Survey.OpensBehind, Survey.SplitsIn,
  Survey.scanTrips_joinsIn, Survey.openTrip_opensBehind, Survey.firstPlace_splitsIn
-/
import Haulage.Proofs.Current
import Haulage.Proofs.Finds

namespace Haulage

variable {α : Type} [Quantity α]

/-! ### Stops whose location is known -/

/-- Every base among some stops has a location. -/
def BasePool.Locates (pool : BasePool) (stops : List Stop) : Prop :=
  ∀ b, .base b ∈ stops → ∃ location, pool.locationOf b = some location

section

variable {p : Problem α} {pool other : BasePool} {stops : List Stop}

omit [Quantity α] in
theorem BasePool.Locates.stopLocation {stop : Stop} {lies : Option Nat} (locates : pool.Locates stops)
    (member : stop ∈ stops) (there : p.stopLocation pool stop = .ok lies) :
    ∃ location, lies = some location := by
  cases stop with
  | destination job =>
      obtain ⟨d, _, rfl⟩ := stopLocation_destination.mp there
      exact ⟨d.location, rfl⟩
  | base b =>
      obtain ⟨location, known⟩ := locates b member
      cases (stopLocation_of_locationOf known).symm.trans there
      exact ⟨location, rfl⟩

omit [Quantity α] in
/-- Where all bases have a location, a vehicle heads for the same place wherever it comes from. -/
theorem BasePool.Locates.headsFor {v : Vehicle α} {place from' ahead : Option Nat}
    (locates : pool.Locates stops)
    (same : ∀ b, .base b ∈ stops → other.base b = pool.base b)
    (heads : p.headsFor pool v place stops = .ok ahead) :
    p.headsFor other v from' stops = .ok ahead := by
  cases stops with
  | nil => exact heads
  | cons stop rest =>
      simp only [Problem.headsFor, bind_eq_ok] at heads ⊢
      rcases heads with ⟨lies, there, equal⟩
      obtain ⟨location, rfl⟩ := locates.stopLocation List.mem_cons_self there
      cases equal
      refine ⟨some location, ?_, rfl⟩
      rw [Problem.stopLocation_congr fun b here => same b (here ▸ List.mem_cons_self)]
      exact there

end

namespace Survey

/-! ### What is worked out in a gap -/

/-- A job is offered a place in a gap of a route, at the cost of the detour and of the windows that
are missed. -/
structure JoinsIn (s : Survey α) (t : RouteTrial α) (route : Route) (job : Nat)
    (d : Destination α) (routeCost : α) (before after : List Stop) (gap : Gap) (offer : Offer α) :
    Prop where
  split : route.stops = before ++ after
  met : gap.Met s.problem s.plan.pool t.vehicle t.departure before after
  cost_eq : ∃ windowCost detour,
    (s.trialAt t job gap).windowCost s.problem s.pricing s.plan = .ok windowCost ∧
    s.problem.detourCost t.vehicle gap.previousLocation d.location gap.nextLocation = .ok detour ∧
    offer.cost = routeCost + windowCost + detour
  proposal_eq : offer.proposal =
    propose t route gap.position gap.trip [.insert t.route gap.position (.destination job)]

/-- A job tried out at the tail of a route, with a base behind it that unloads at a location. -/
def tailTrial (s : Survey α) (t : RouteTrial α) (job base location : Nat) (tail : Gap) : Trial α :=
  { route := t.route, vehicle := t.vehicle, newStop := .destination job,
    gap := { tail with next := .at (.base base), nextLocation := some location },
    load := s.plan.ledger.load t.route tail.trip, unloadLocation := some location }

/-- A job is offered a place at the end of a route, with a base behind it.  The base is reached at
some time, and takes as long as the service times say for this time. -/
structure OpensBehind (s : Survey α) (t : RouteTrial α) (route : Route) (job : Nat)
    (d : Destination α) (base : Nat) (routeCost : α) (tail : Gap) (location : Nat)
    (leaving arrival : Instant) (duration : Duration) (offer : Offer α) : Prop where
  met : tail.Met s.problem s.plan.pool t.vehicle t.departure route.stops []
  leaves : (s.tailTrial t job base location tail).leaving s.problem = .ok leaving
  arrives : s.problem.arrival t.vehicle (some d.location) (some location) leaving = .ok arrival
  takes : s.serviceTimes t.vehicle location arrival = .ok duration
  cost_eq : ∃ baseDetour jobDetour windowCost,
    s.problem.detourCost t.vehicle tail.previousLocation location tail.nextLocation =
      .ok baseDetour ∧
    s.problem.detourCost t.vehicle tail.previousLocation d.location (some location) =
      .ok jobDetour ∧
    (s.tailTrial t job base location tail).windowCost s.problem s.pricing s.plan =
      .ok windowCost ∧
    offer.cost = routeCost + windowCost + 0 + (baseDetour + jobDetour)
  proposal_eq : offer.proposal = propose t route tail.position tail.trip
    [.insert t.route tail.position (.destination job),
      .insert t.route (tail.position + 1) (.base base), .place base location duration]

/-- A base is put into a gap of a route.  It is reached at some time, and takes as long as the
service times say for this time. -/
structure SplitsIn (s : Survey α) (t : RouteTrial α) (route : Route) (base : Nat)
    (before after : List Stop) (gap : Gap) (location : Nat) (arrival : Instant)
    (duration : Duration) (q : Proposal) : Prop where
  split : route.stops = before ++ after
  met : gap.Met s.problem s.plan.pool t.vehicle t.departure before after
  arrives : s.problem.arrival t.vehicle gap.previousLocation (some location)
    gap.previousDeparture = .ok arrival
  takes : s.serviceTimes t.vehicle location arrival = .ok duration
  proposal_eq : q = propose t route gap.position gap.trip
    [.insert t.route gap.position (.base base), .place base location duration]

/-! ### What the calculators find -/

section

variable {s : Survey α} {t : RouteTrial α} {route : Route} {job base : Nat} {d : Destination α}
  {routeCost : α} {known : Bound α} {gap : Gap}

/-- A gap that becomes the best one does so at its cost. -/
theorem lookAt_cost {state : ScanState α} {step : ForInStep (ScanState α)}
    (looked : s.lookAt t job d routeCost known state gap = .ok step) :
    step.value.best = state.best ∨ ∃ windowCost detour,
      (s.trialAt t job gap).windowCost s.problem s.pricing s.plan = .ok windowCost ∧
      s.problem.detourCost t.vehicle gap.previousLocation d.location gap.nextLocation =
        .ok detour ∧
      step.value.best = some (routeCost + windowCost + detour, gap) := by
  simp only [lookAt] at looked
  split at looked
  · cases looked
    exact .inl rfl
  · simp only [bind_eq_ok] at looked
    rcases looked with ⟨verdict, _, looked⟩
    cases verdict with
    | breakTrip | continueScan =>
        cases looked
        exact .inl rfl
    | fulfilled =>
        simp only [bind_eq_ok] at looked
        rcases looked with ⟨windowCost, windows, detour, detours, looked⟩
        split_ifs at looked
        · cases looked
          exact .inr ⟨windowCost, detour, windows, detours, rfl⟩
        · cases looked
          exact .inl rfl

/-- What a scan of the trips of a route finds was computed in one of its gaps. -/
theorem scanTrips_joinsIn {offer : Offer α}
    (done : s.scanTrips t route job d routeCost known = .ok (some offer)) :
    ∃ before after gap, s.JoinsIn t route job d routeCost before after gap offer := by
  simp only [scanTrips, bind_eq_ok, Except.ok.injEq, Option.map_eq_some_iff] at done
  rcases done with ⟨state, scanned, ⟨cost, gap⟩, best, rfl⟩
  refine Walk.scan_keeps (fun state : ScanState α => ∀ cost gap, state.best = some (cost, gap) →
    ∃ before after gap', s.JoinsIn t route job d routeCost before after gap'
      ⟨cost, propose t route gap.position gap.trip
        [.insert t.route gap.position (.destination job)]⟩) ?_ (by simp) scanned cost gap best
  intro before after gap state step split met holds looked cost best found
  rcases lookAt_cost looked with same | ⟨windowCost, detour, windows, detours, became⟩
  · exact holds cost best (same ▸ found)
  · rw [became] at found
    cases found
    exact ⟨before, after, gap, split, met, ⟨windowCost, detour, windows, detours, rfl⟩, rfl⟩

/-- What opens a trip was computed at the tail of the route. -/
theorem openTrip_opensBehind {offer : Offer α}
    (done : s.openTrip t route job d base routeCost known = .ok (some offer)) :
    ∃ tail location leaving arrival duration,
      s.OpensBehind t route job d base routeCost tail location leaving arrival duration offer := by
  simp only [openTrip, bind_eq_ok] at done
  rcases done with ⟨tail, walked, chosen, choice, done⟩
  have met := Walk.tailGap_met walked
  cases chosen with
  | none => cases done
  | some location =>
      simp only [bind_eq_ok] at done
      rcases done with ⟨verdict, _, done⟩
      cases verdict with
      | breakTrip | continueScan => cases done
      | fulfilled =>
          simp only [bind_eq_ok] at done
          rcases done with ⟨leaving, leaves, arrival, arrives, duration, takes, verdict, _, done⟩
          cases verdict with
          | breakTrip | continueScan => cases done
          | fulfilled =>
              simp only [bind_eq_ok] at done
              rcases done with ⟨baseDetour, bases, jobDetour, jobs, jobWindow, windows, baseWindow,
                free, done⟩
              cases free
              split at done
              · cases done
              · cases done
                exact ⟨tail, location, leaving, arrival, duration, met, leaves, arrives, takes,
                  ⟨baseDetour, jobDetour, jobWindow, bases, jobs, windows, rfl⟩, rfl⟩

/-- The first place for a base was computed in one of the gaps of the route. -/
theorem firstPlace_splitsIn {r vehicle : Nat} {departure : Instant} {q : Proposal}
    (done : s.firstPlace r base vehicle departure = .ok (some q)) :
    s.plan.pool.isFree base = true ∧ ∃ v route, s.problem.vehicle vehicle = .ok v ∧
      s.plan.routes[r]? = some route ∧ ∃ before after gap location arrival duration,
        s.SplitsIn ⟨r, vehicle, v, departure, .base base⟩ route base before after gap location
          arrival duration q := by
  simp only [firstPlace] at done
  split at done
  · cases done
  rename_i free
  simp only [bind_eq_ok, Plan.route_eq_ok] at done
  rcases done with ⟨v, driven, route, found, scanned⟩
  refine ⟨by simpa using free, v, route, driven, found, ?_⟩
  refine Walk.scan_keeps (fun found : Option Proposal => ∀ q, found = some q →
    ∃ before after gap location arrival duration,
      s.SplitsIn ⟨r, vehicle, v, departure, .base base⟩ route base before after gap location arrival
        duration q) ?_ (by simp) scanned q rfl
  intro before after gap found step split met holds looked q taken
  simp only [lookForBase, bind_eq_ok] at looked
  rcases looked with ⟨chosen, _, looked⟩
  cases chosen with
  | none =>
      cases looked
      exact holds q taken
  | some location =>
      simp only [bind_eq_ok] at looked
      rcases looked with ⟨arrival, arrives, duration, takes, verdict, _, looked⟩
      cases verdict with
      | breakTrip | continueScan =>
          cases looked
          exact holds q taken
      | fulfilled =>
          cases looked
          cases taken
          exact ⟨before, after, gap, location, arrival, duration, split, met, arrives, takes, rfl⟩

end

end Survey

end Haulage

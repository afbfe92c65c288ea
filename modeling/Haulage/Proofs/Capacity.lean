/-
Module: Haulage.Proofs.Capacity
Purpose: Insertion never overloads a trip.  The load in the ledger stands for the jobs of the trip,
  and an offer is judged by it under the number that the trip has.
Main exports: TripsFit, RouteFits, Plan.WithinLimits, insertions_withinLimits
-/
import Haulage.Proofs.Changes
import Haulage.Proofs.ConservedSessions
import Haulage.Proofs.Turn

namespace Haulage

open Attempt

/-! ### Limits of a route -/

/-- Every closed trip of a route is within the capacity of the vehicle for its number. -/
def TripsFit {α : Type} [Quantity α] (p : Problem α) (v : Vehicle α) (stops : List Stop) : Prop :=
  ∀ k t, (closedTrips stops)[k]? = some t → (p.demandOf t.jobs).fits (v.tripCapacity k) = true

/-- The closed trips of a route fit, and the vehicle may serve as many destinations. -/
structure RouteFits {α : Type} [Quantity α] (p : Problem α) (v : Vehicle α)
    (stops : List Stop) : Prop where
  trips : TripsFit p v stops
  destinations : ∀ most ∈ v.maximumDestinations, stops.countP (·.isDestination) ≤ most

/-- Every route is within the limits of its vehicle. -/
def Plan.WithinLimits {α : Type} [Quantity α] (p : Problem α) (plan : Plan α) : Prop :=
  ∀ (r vehicle : Nat) (stops : List Stop) (v : Vehicle α),
    plan.itineraries[r]? = some (vehicle, stops) → p.vehicle vehicle = .ok v → RouteFits p v stops

variable {p : Problem Rat} {v : Vehicle Rat}

/-- A job joins a trip that has room for it. -/
theorem RouteFits.join {before after : List Stop} {job : Nat}
    (fits : RouteFits p v (before ++ after))
    (room : (p.demandOf (jobsOfTrip (before ++ after) (basesIn before)) + p.demand job).fits
      (v.tripCapacity (basesIn before)) = true)
    (few : v.maximumDestinations.all ((before ++ after).countP (·.isDestination) < ·) = true) :
    RouteFits p v (before ++ .destination job :: after) := by
  constructor
  · intro k t found
    rcases takesUp_insert job before after with
      ⟨closed, _, _⟩ | ⟨first, last, trip, joined, was, is, number, _, served, _⟩
    · rw [closedTrips, closed] at found
      exact fits.trips k t found
    · rw [← closedTrips] at was is
      rw [is] at found
      by_cases here : k = first.length
      · subst here
        rw [List.getElem?_append_right (Nat.le_refl _), Nat.sub_self] at found
        cases found
        have old : (closedTrips (before ++ after))[basesIn before]? = some trip := by
          rw [was, ← number, List.getElem?_append_right (Nat.le_refl _), Nat.sub_self]
          rfl
        rw [jobsOfTrip_closed old, ← number, ← Problem.demandOf_append_singleton] at room
        refine (Problem.fits_perm (served.trans ?_)).mpr room
        exact (List.perm_append_singleton job trip.jobs).symm
      · apply fits.trips k t
        rw [was]
        by_cases early : k < first.length
        · rwa [List.getElem?_append_left early] at found ⊢
        · rw [List.getElem?_append_right (by omega)] at found ⊢
          obtain ⟨i, later⟩ : ∃ i, k - first.length = i + 1 := ⟨k - first.length - 1, by omega⟩
          rw [later] at found ⊢
          exact found
  · intro most limit
    have below := (Option.all_eq_true _ _).mp few most limit
    rw [decide_eq_true_eq] at below
    have more : (before ++ Stop.destination job :: after).countP (·.isDestination) =
        (before ++ after).countP (·.isDestination) + 1 := by
      simp [List.countP_append, Stop.isDestination, Nat.add_assoc]
    omega

/-- The jobs that no base closed are closed by a base, within the capacity for that trip. -/
theorem RouteFits.close {stops : List Stop} (b : Nat) (fits : RouteFits p v stops)
    (room : (p.demandOf (openJobs stops)).fits (v.tripCapacity (basesIn stops)) = true) :
    RouteFits p v (stops ++ [.base b]) := by
  constructor
  · intro k t found
    rw [closedTrips_append_base] at found
    by_cases early : k < (closedTrips stops).length
    · rw [List.getElem?_append_left early] at found
      exact fits.trips k t found
    · rw [List.getElem?_append_right (Nat.le_of_not_lt early), List.getElem?_singleton] at found
      split at found
      · cases found
        rw [length_closedTrips] at early
        rename_i here
        rw [length_closedTrips] at here
        have number : k = basesIn stops := by omega
        exact number ▸ room
      · cases found
  · intro most limit
    have same : (stops ++ [Stop.base b]).countP (·.isDestination) =
        stops.countP (·.isDestination) := by
      simp [List.countP_append, Stop.isDestination]
    exact same ▸ fits.destinations most limit

/-- A change of one route that stays within its limits. -/
theorem Plan.WithinLimits.set {plan next : Plan Rat} {r vehicle : Nat} {stops : List Stop}
    (limits : plan.WithinLimits p)
    (changed : next.itineraries = plan.itineraries.set r (vehicle, stops))
    (fits : ∀ v, p.vehicle vehicle = .ok v → RouteFits p v stops) : next.WithinLimits p := by
  intro i vehicle' stops' v found known
  rw [changed, List.getElem?_set] at found
  split_ifs at found
  · cases found
    exact fits v known
  · exact limits i vehicle' stops' v found known

/-! ### Loads in the ledger -/

namespace Plan

/-- The loads in the ledger are those of the trips. -/
def LoadsAgree (p : Problem Rat) (plan : Plan Rat) : Prop :=
  ∀ r stops, plan.Visits r stops → ∀ trip,
    plan.ledger.load r trip = p.demandOf (jobsOfTrip stops trip)

/-- Refreshing the route that was changed brings the loads up to date. -/
theorem LoadsAgree.refresh {plan next fresh : Plan Rat} {r : Nat} (loads : plan.LoadsAgree p)
    (changes : ChangesOnly r plan next) (done : next.refreshRoute p r = .ok fresh) :
    fresh.LoadsAgree p := by
  intro i stops visits trip
  by_cases same : r = i
  · exact (same ▸ (refreshRoute_agrees done).1).load_eq visits trip
  · have whole := changes.trans (changesOnly_refreshRoute done)
    rw [Ledger.load, Ledger.load?, Ledger.trip, whole.entries i same]
    exact loads i stops ((whole.visits same).mp visits) trip

end Plan

/-! ### Taking up an offer -/

theorem withinLimits_refreshRoute {plan fresh : Plan Rat} {r : Nat}
    (limits : plan.WithinLimits p) (done : plan.refreshRoute p r = .ok fresh) :
    fresh.WithinLimits p := by
  rw [Plan.WithinLimits, (Plan.refreshRoute_keeps done).1]
  exact limits

/-- A job that is put where an offer puts it leaves the route within its limits. -/
theorem withinLimits_insertJob {plan next : Plan Rat} {r vehicle job : Nat}
    (before after : List Stop) (limits : plan.WithinLimits p)
    (found : plan.itineraries[r]? = some (vehicle, before ++ after))
    (known : p.vehicle vehicle = .ok v)
    (room : (p.demandOf (jobsOfTrip (before ++ after) (basesIn before)) + p.demand job).fits
      (v.tripCapacity (basesIn before)) = true)
    (few : v.maximumDestinations.all ((before ++ after).countP (·.isDestination) < ·) = true)
    (done : plan.insertStop r before.length (.destination job) = .ok next) :
    next.itineraries = plan.itineraries.set r (vehicle, before ++ .destination job :: after) ∧
      next.WithinLimits p := by
  obtain ⟨_, _, foundAgain, changed, _⟩ := Plan.insertStop_itineraries done
  rw [found] at foundAgain
  cases foundAgain
  rw [insertIdx_between] at changed
  refine ⟨changed, limits.set changed fun v' knownAgain => ?_⟩
  rw [known] at knownAgain
  cases knownAgain
  exact (limits r vehicle _ v found known).join room few

/-- A base that closes the jobs at the end of a route leaves it within its limits. -/
theorem withinLimits_insertBase {plan next : Plan Rat} {r vehicle b : Nat} {stops : List Stop}
    (limits : plan.WithinLimits p) (found : plan.itineraries[r]? = some (vehicle, stops))
    (known : p.vehicle vehicle = .ok v)
    (room : (p.demandOf (openJobs stops)).fits (v.tripCapacity (basesIn stops)) = true)
    (done : plan.insertStop r stops.length (.base b) = .ok next) : next.WithinLimits p := by
  obtain ⟨_, _, foundAgain, changed, _⟩ := Plan.insertStop_itineraries done
  rw [found] at foundAgain
  cases foundAgain
  rw [List.insertIdx_length_self] at changed
  apply limits.set changed
  intro v' knownAgain
  rw [known] at knownAgain
  cases knownAgain
  exact (limits r vehicle stops v found known).close b room

/-- Changes of one route that keep all routes within their limits. -/
def KeepsLimits (p : Problem Rat) (q : Proposal) (plan : Plan Rat) : Prop :=
  Ends (makeChanges q.changes)
    (fun _ next => next.WithinLimits p ∧ Plan.ChangesOnly q.route plan next)
    (fun _ next => next.WithinLimits p) plan

/-- A job that joins a trip with room for it. -/
theorem joins_keepsLimits {plan : Plan Rat} {volumes : Volumes Rat} {route : Route}
    {d : Destination Rat} {job : Nat} {before after : List Stop} {q : Proposal}
    (loads : plan.LoadsAgree p) (limits : plan.WithinLimits p)
    (foundRoute : plan.routes[q.route]? = some route) (known : p.vehicle route.vehicle = .ok v)
    (served : p.destination job = .ok d)
    (few : v.maximumDestinations.all (route.destinationCount < ·) = true)
    (joins : JoinsTrip plan volumes route v job d.demand before after q) :
    KeepsLimits p q plan := by
  have found : plan.itineraries[q.route]? = some (route.vehicle, route.stops) :=
    Plan.itineraries_of_route foundRoute
  have room := joins.fits
  rw [loads q.route route.stops ⟨route.vehicle, found⟩, joins.trip_eq,
    ← Problem.demand_eq served] at room
  rw [Route.destinationCount] at few
  rw [joins.stops_eq] at found few room
  refine joins.ends_changes (fun next inserted => ?_) fun _ => limits
  constructor
  · exact (withinLimits_insertJob before after limits found known room few inserted).2
  · exact (Plan.ChangesAt.insertStop inserted).toChangesOnly

/-- A job at the end of a route, and the base behind it that closes its trip. -/
theorem opens_keepsLimits {plan : Plan Rat} {volumes : Volumes Rat} {route : Route}
    {provider : LocationProvider Rat} {d : Destination Rat} {job b location : Nat}
    {duration : Duration} {q : Proposal} (loads : plan.LoadsAgree p)
    (limits : plan.WithinLimits p) (foundRoute : plan.routes[q.route]? = some route)
    (known : p.vehicle route.vehicle = .ok v) (served : p.destination job = .ok d)
    (few : v.maximumDestinations.all (route.destinationCount < ·) = true)
    (opens : OpensTrip plan volumes provider route v job d.demand b location duration q) :
    KeepsLimits p q plan := by
  have found : plan.itineraries[q.route]? = some (route.vehicle, route.stops) :=
    Plan.itineraries_of_route foundRoute
  have room := opens.fits
  rw [loads q.route route.stops ⟨route.vehicle, found⟩, opens.trip_eq,
    ← Problem.demand_eq served] at room
  rw [Route.destinationCount] at few
  rw [KeepsLimits, opens.changes_eq]
  -- No base closes the trip of the job yet.
  refine (ends_makeChanges_cons _ _).mpr ⟨fun next inserted => ?_, fun _ _ => limits⟩
  have inserted : plan.insertStop q.route route.stops.length (.destination job) = .ok next :=
    inserted
  obtain ⟨changed, jobLimits⟩ := withinLimits_insertJob route.stops [] limits
    (by simpa using found) known (by simpa using room) (by simpa using few) inserted
  refine (ends_makeChanges_cons _ _).mpr ⟨fun closed closing => ?_, fun _ _ => jobLimits⟩
  have closing : next.insertStop q.route (route.stops.length + 1) (.base b) = .ok closed :=
    closing
  have foundNow : next.itineraries[q.route]? =
      some (route.vehicle, route.stops ++ [.destination job]) := by
    rw [changed, List.getElem?_set_self (List.getElem?_eq_some_iff.mp found).1]
  have closedLimits : closed.WithinLimits p := by
    refine withinLimits_insertBase jobLimits foundNow known ?_ (by simpa using closing)
    rw [openJobs_append_destination, Problem.demandOf_append_singleton, basesIn_append]
    simpa [jobsOfTrip_open] using room
  refine (ends_makeChanges_cons _ _).mpr ⟨fun last placed => ?_, fun _ _ => closedLimits⟩
  obtain ⟨_, rfl⟩ := Plan.placeBase_eq_ok.mp placed
  have opened := (Plan.ChangesAt.insertStop inserted).trans (Plan.ChangesAt.insertStop closing)
  exact ⟨closedLimits, opened.toChangesOnly.trans (Plan.changesOnly_of_keeps rfl rfl)⟩

/-- Taking up an offer keeps every route within its limits, and the loads up to date. -/
theorem commit_withinLimits {provider : LocationProvider Rat} {job : Nat} {q : Proposal}
    {w : Work Rat} (loads : w.plan.LoadsAgree p) (limits : w.plan.WithinLimits p)
    (serves : Serves p w.plan w.volumes provider job q) :
    Ends (Fill.commit p q) (fun _ next => next.plan.LoadsAgree p ∧ next.plan.WithinLimits p)
      (fun _ next => next.plan.WithinLimits p) w := by
  have keeps : KeepsLimits p q w.plan := by
    rcases serves with ⟨route, v, d, found, known, served, few, offer⟩
    rcases offer with ⟨before, after, joins⟩ | ⟨b, location, duration, opens⟩
    · exact joins_keepsLimits loads limits found known served few joins
    · exact opens_keepsLimits loads limits found known served few opens
  apply Work.commit_plan (Q := fun plan => plan.LoadsAgree p ∧ plan.WithinLimits p) limits
  refine keeps.mono (fun _ next kept => ⟨kept.1, fun fresh refreshed => ?_⟩)
    fun _ _ failed => failed
  have last := withinLimits_refreshRoute kept.1 refreshed
  exact ⟨⟨loads.refresh kept.2 refreshed, last⟩, last⟩

/-! ### Insertion -/

theorem prepare_withinLimits {f : Fill Rat} (limits : f.work.plan.WithinLimits p) :
    Ends (Fill.prepare p)
      (fun _ g => g.work.plan.LoadsAgree p ∧ g.work.plan.WithinLimits p)
      (fun _ g => g.work.plan.WithinLimits p) f := by
  have pooledLimits : ∀ pooled, f.work.plan.refreshBases = .ok pooled →
      pooled.WithinLimits p := by
    intro pooled pool
    simp only [Plan.refreshBases, bind_eq_ok] at pool
    rcases pool with ⟨_, _, equal⟩
    cases equal
    exact limits
  refine Fill.prepare_ends (J := fun w => w.plan.LoadsAgree p ∧ w.plan.WithinLimits p)
    (E := fun _ w => w.plan.WithinLimits p) (fun _ _ => limits)
    (fun pooled e pool _ => pooledLimits pooled pool) fun pooled fresh pool refreshed => ?_
  have last : fresh.WithinLimits p :=
    foldlM_keeps (fun plan : Plan Rat => plan.WithinLimits p)
      (fun r _ _ _ kept => withinLimits_refreshRoute kept) (pooledLimits pooled pool) refreshed
  have loads : fresh.LoadsAgree p := fun r _ visits trip =>
    (Plan.refreshRoutes_agrees refreshed r).load_eq visits trip
  exact ends_of_forall (fun _ _ => ⟨loads, last⟩) fun _ _ => last

/-- However many jobs were tried in whatever order, every closed trip is within the capacity of the
vehicle for its number, and every route within the maximum of destinations, if that was so
before. -/
theorem insertions_withinLimits (p : Problem Rat) (settings : Settings Rat) (jobs : List Nat)
    {plan : Plan Rat} (limits : plan.WithinLimits p) :
    (stateAfter (Fill.insertions p settings jobs (Fill.start p plan))).work.plan.WithinLimits
      p := by
  have start : (Fill.start p plan).work.plan.WithinLimits p := limits
  apply (ends_iff_stateAfter (I := fun f : Fill Rat => f.work.plan.WithinLimits p)).mp
  refine (Fill.insertions_ends (fun w => w.plan.LoadsAgree p ∧ w.plan.WithinLimits p)
    (E := fun _ w => w.plan.WithinLimits p) (prepare_withinLimits start)
    fun job g kept => ?_).mono (fun _ g kept => kept.2) fun _ _ failed => failed
  refine Fill.insertJob_ends (fun w => w.plan.LoadsAgree p ∧ w.plan.WithinLimits p)
    (E := fun _ w => w.plan.WithinLimits p) kept ?_ (fun _ _ kept => kept.2)
    fun w q kept serves => commit_withinLimits kept.1 kept.2 serves
  intro w ledger kept same _
  refine ⟨fun r stops visits trip => ?_, kept.2⟩
  rw [same.load_eq]
  exact kept.1 r stops visits trip

theorem empty_withinLimits {start : Plan Rat} (begins : Plan.empty p = .ok start) :
    start.WithinLimits p := by
  intro r vehicle stops v found known
  rw [visits_empty begins ⟨vehicle, found⟩]
  exact ⟨fun k t closed => by simp at closed, fun most _ => by simp⟩

/-- The second job does not fit into the first trip, and gets one of its own. -/
theorem insertions_withinLimits_twoJobs :
    ∃ start, Plan.empty twoJobs = .ok start ∧ start.WithinLimits twoJobs ∧
      (stateAfter (Fill.insertions twoJobs (.forProblem twoJobs .standard) [0, 1]
        (Fill.start twoJobs start))).work.plan.WithinLimits twoJobs ∧
      (stateAfter (Fill.insertions twoJobs (.forProblem twoJobs .standard) [0, 1]
        (Fill.start twoJobs start))).work.plan.itineraries =
          [(0, [.destination 0, .base 0, .destination 1, .base 1])] := by
  have begins : Plan.empty twoJobs =
      .ok ⟨[⟨0, none, [], [], .epoch⟩], .ofSize 2, .blank 1, [0, 1]⟩ := by rfl
  have limits := empty_withinLimits begins
  exact ⟨_, begins, limits, insertions_withinLimits twoJobs _ [0, 1] limits, by decide +kernel⟩

end Haulage

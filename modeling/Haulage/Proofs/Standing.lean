/-
Module: Haulage.Proofs.Standing
Purpose: Plans on which a pass cannot go wrong.  They are in range, each trip serves a job, and the
  ledger tells the truth.  As long as a job is unassigned there is a base for it, since every base
  that is out has a job of its own.
Main exports: Plan.Standing, Plan.Standing.exists_free, Plan.Standing.refreshRoutes,
  Plan.Standing.ruin, Plan.Standing.resetRoute
-/
import Haulage.Proofs.InRange
import Haulage.Proofs.Revisit
import Haulage.Proofs.ShapedSessions
import Mathlib.Algebra.Order.BigOperators.Group.List
import Mathlib.Algebra.Order.Group.Nat

namespace Haulage

variable {α : Type} [Quantity α]

open Attempt Problem

/-! ### Jobs and bases -/

theorem jobsIn_flatMap_stops (trips : List Trip) :
    jobsIn (trips.flatMap Trip.stops) = trips.flatMap (·.jobs) := by
  induction trips with
  | nil => rfl
  | cons t trips inductionHypothesis =>
      rw [List.flatMap_cons, List.flatMap_cons, jobsIn_append, inductionHypothesis, Trip.stops,
        jobsIn_append, jobsIn_destinations, jobsIn_base, jobsIn_nil, List.append_nil]

/-- Where every trip serves a job, there are no more bases than jobs. -/
theorem basesIn_le_jobs {stops : List Stop} (serves : ∀ t ∈ closedTrips stops, t.jobs ≠ []) :
    basesIn stops ≤ (jobsIn stops).length := by
  have jobs : jobsIn stops = (closedTrips stops).flatMap (·.jobs) ++ openJobs stops := by
    conv => lhs; rw [stops_eq_trips stops]
    rw [jobsIn_append, jobsIn_flatMap_stops, jobsIn_destinations]
  have each : ∀ n ∈ (closedTrips stops).map (·.jobs.length), 1 ≤ n := by
    intro n member
    obtain ⟨t, among, rfl⟩ := List.mem_map.mp member
    exact List.length_pos_iff.mpr (serves t among)
  have enough := List.length_le_sum_of_one_le _ each
  rw [List.length_map, length_closedTrips] at enough
  rw [jobs, List.length_append, List.length_flatMap]
  omega

theorem length_bases (stops : List Stop) :
    (stops.filterMap (·.base?)).length = basesIn stops := by
  induction stops with
  | nil => rfl
  | cons stop rest inductionHypothesis =>
      cases stop with
      | destination job => exact inductionHypothesis
      | base b =>
          rw [basesIn_base, ← inductionHypothesis]
          rfl

namespace Plan

/-- All stops of all routes. -/
def allStops (plan : Plan α) : List Stop := plan.itineraries.flatMap (·.2)

section

omit [Quantity α]

variable {plan : Plan α} {jobs bases : Nat}

theorem routed_eq_count (plan : Plan α) (stop : Stop) :
    plan.routed stop = plan.allStops.count stop := by
  rw [routed, allStops, List.count_flatMap]
  rfl

theorem Holding.nodup_allStops (conserved : Conserved jobs bases plan) : plan.allStops.Nodup := by
  apply List.nodup_iff_count_le_one.mpr
  intro stop
  have once := conserved.once stop
  have known := Bool.toNat_le (knows jobs bases stop)
  rw [tally, routed_eq_count] at once
  omega

theorem AllInTrips.basesIn_allStops (all : plan.AllInTrips True jobs bases) :
    basesIn plan.allStops ≤ (jobsIn plan.allStops).length := by
  have each : ∀ itinerary ∈ plan.itineraries, basesIn itinerary.2 ≤ (jobsIn itinerary.2).length := by
    intro itinerary member
    obtain ⟨r, found⟩ := List.getElem?_of_mem member
    exact basesIn_le_jobs (all.routes r itinerary.2 ⟨itinerary.1, found⟩).serves
  have total := List.sum_le_sum each
  rw [basesIn, allStops, List.countP_flatMap, jobsIn, List.filterMap_flatMap, List.length_flatMap]
  exact total

/-- What occurs anywhere is known. -/
theorem Holding.job_lt (conserved : Conserved jobs bases plan) {job : Nat}
    (occurs : 0 < plan.tally (.destination job)) : job < jobs := by
  have once := conserved.once (.destination job)
  rw [knows] at once
  by_contra outside
  rw [decide_eq_false outside, Bool.toNat_false] at once
  omega

theorem Holding.unassigned_lt (conserved : Conserved jobs bases plan) {job : Nat}
    (waits : job ∈ plan.unassigned) : job < jobs := by
  apply conserved.job_lt
  have waiting : 0 < plan.waiting (.destination job) := List.count_pos_iff.mpr waits
  rw [tally]
  omega

/-- Of the jobs one waits, so those that are served are fewer. -/
theorem Holding.length_jobsIn (conserved : Conserved jobs bases plan) {job : Nat}
    (waits : job ∈ plan.unassigned) : (jobsIn plan.allStops).length < jobs := by
  have served (other : Nat) (member : other ∈ jobsIn plan.allStops) :
      0 < plan.routed (.destination other) := by
    rw [routed_eq_count]
    exact List.count_pos_iff.mpr (mem_jobsIn.mp member)
  have distinct : (job :: jobsIn plan.allStops).Nodup := by
    refine List.nodup_cons.mpr ⟨fun member => ?_, nodup_jobsIn conserved.nodup_allStops⟩
    have once := conserved.once (.destination job)
    have most := Bool.toNat_le (knows jobs bases (.destination job))
    have twice := served job member
    have waiting : 0 < plan.waiting (.destination job) := List.count_pos_iff.mpr waits
    rw [tally] at once
    omega
  have among : job :: jobsIn plan.allStops ⊆ List.range jobs := by
    intro other member
    rw [List.mem_range]
    rcases List.mem_cons.mp member with rfl | later
    · exact conserved.unassigned_lt waits
    · have positive := served other later
      apply conserved.job_lt
      rw [tally]
      omega
  have fewer := distinct.length_le_of_subset among
  rwa [List.length_cons, List.length_range] at fewer

/-- Where no base is free, every base is out. -/
theorem Holding.routed_of_exhausted (conserved : Conserved jobs bases plan)
    (exhausted : plan.pool.lowestFree? = none) {b : Nat} (inside : b < bases) :
    plan.routed (.base b) = 1 := by
  have once := conserved.once (.base b)
  have taken : plan.pool.isFree b = false := by
    have none := List.find?_eq_none.mp exhausted b
      (List.mem_range.mpr (conserved.size_eq.symm ▸ inside))
    simpa using none
  rw [tally, waiting, taken, knows, decide_eq_true inside] at once
  simpa using once

theorem Holding.length_bases (conserved : Conserved jobs bases plan)
    (exhausted : plan.pool.lowestFree? = none) : bases ≤ basesIn plan.allStops := by
  have out : List.range bases ⊆ plan.allStops.filterMap (·.base?) := by
    intro b inside
    have once := conserved.routed_of_exhausted exhausted (List.mem_range.mp inside)
    rw [routed_eq_count] at once
    have there : Stop.base b ∈ plan.allStops := by
      apply List.count_pos_iff.mp
      omega
    exact List.mem_filterMap.mpr ⟨.base b, there, rfl⟩
  have enough := List.nodup_range.length_le_of_subset out
  rwa [List.length_range, Haulage.length_bases] at enough

/-- A base is left for every job that is unassigned. -/
theorem AllInTrips.exists_free (all : plan.AllInTrips True jobs bases) (most : jobs ≤ bases)
    {job : Nat} (waits : job ∈ plan.unassigned) : ∃ b, plan.pool.lowestFree? = some b := by
  apply Option.ne_none_iff_exists'.mp
  intro exhausted
  have out := all.conserved.length_bases exhausted
  have served := all.conserved.length_jobsIn waits
  have closed := all.basesIn_allStops
  omega

end

/-! ### Standing plans -/

/-- A plan in range, with a job on each trip, and with a ledger that tells the truth. -/
structure Standing (p : Problem α) (bases : Nat) (plan : Plan α) : Prop where
  inRange : plan.InRange p bases
  routes : ∀ r stops, plan.Visits r stops → InTrips True plan.pool stops
  agrees : ∀ r, plan.Agrees p r

namespace Standing

variable {p : Problem α} {bases r : Nat} {plan next : Plan α}

theorem allInTrips (standing : plan.Standing p bases) :
    plan.AllInTrips True p.destinations.size bases :=
  ⟨standing.inRange.conserved, standing.routes⟩

theorem conserved (standing : plan.Standing p bases) :
    Conserved p.destinations.size bases plan := standing.inRange.conserved

theorem refreshBases (standing : plan.Standing p bases) :
    ∃ pooled, plan.refreshBases = .ok pooled ∧ pooled.Standing p bases := by
  obtain ⟨pooled, done, inRange⟩ := standing.inRange.refreshBases
  obtain ⟨itineraries, ledger, locations⟩ := refreshBases_keeps done
  refine ⟨pooled, done, inRange, (standing.allInTrips.refreshBases done).routes, fun r => ?_⟩
  exact (standing.agrees r).congr (by rw [itineraries]) (by rw [ledger]) (locations r)

theorem refreshRoute (linked : p.Linked) (standing : plan.Standing p bases)
    (known : r < p.vehicles.size) : p.Yields (Standing p bases) (plan.refreshRoute p r) := by
  have refreshes := standing.inRange.refreshRoute linked known
  exact ⟨fun next done => ⟨refreshes.answers next done,
    (standing.allInTrips.refreshRoute done).routes,
    fun i => (standing.agrees i).refreshRoute done⟩, refreshes.fails⟩

theorem refreshRoutes (linked : p.Linked) (standing : plan.Standing p bases) :
    p.Yields (Standing p bases) (plan.refreshRoutes p) := by
  have refreshes := standing.inRange.refreshRoutes linked
  exact ⟨fun next done => ⟨refreshes.answers next done,
    (standing.allInTrips.refreshRoutes done).routes, refreshRoutes_agrees done⟩, refreshes.fails⟩

theorem repairRoute (linked : p.Linked) (standing : plan.Standing p bases)
    (known : r < p.vehicles.size) : p.Yields (Standing p bases) (plan.repairRoute p r) := by
  have repairs := standing.inRange.repairRoute linked known
  refine ⟨fun next done => ⟨repairs.answers next done,
    (standing.allInTrips.repairRoute done).routes, ?_⟩, repairs.fails⟩
  obtain ⟨_, _, _, _, changes, own, _⟩ := repairRoute_changes standing.conserved done
  exact agrees_of_changesAt standing.agrees changes own

theorem ruin (linked : p.Linked) (standing : plan.Standing p bases) (given : List Nat) :
    p.Yields (fun ruined => ruined.2.Standing p bases) (plan.ruin p given) := by
  have ruins := standing.inRange.ruin linked given
  exact ⟨fun ruined done => ⟨ruins.answers ruined done, (standing.allInTrips.ruin done).routes,
    ruin_agrees standing.conserved standing.agrees done⟩, ruins.fails⟩

theorem resetRoute (linked : p.Linked) (standing : plan.Standing p bases)
    (known : r < p.vehicles.size) : p.Yields (Standing p bases) (plan.resetRoute p r) := by
  have resets := standing.inRange.resetRoute linked known
  exact ⟨fun next done => ⟨resets.answers next done, (standing.allInTrips.resetRoute done).routes,
    resetRoute_agrees standing.conserved standing.agrees done⟩, resets.fails⟩

/-- Marks for the job at hand change nothing. -/
theorem marks {ledger : Ledger α} (standing : plan.Standing p bases)
    (same : SameMarks ledger plan.ledger) : Standing p bases { plan with ledger := ledger } := by
  refine ⟨standing.inRange.congr rfl (standing.conserved.congr rfl rfl rfl)
    standing.inRange.sited, standing.routes, fun r stops visits => ?_⟩
  have before := standing.agrees r stops visits
  have trips := congrArg RouteEntry.trips (same r)
  have counts := congrArg RouteEntry.tripCount (same r)
  have loads := congrArg RouteEntry.stops (same r)
  simp only at trips counts loads
  exact ⟨trips.trans before.trips_eq, counts ▸ before.count_eq, loads ▸ before.load_at⟩

/-- What a trip unloads lies at a site. -/
theorem unloadLocation (standing : plan.Standing p bases) {trip location : Nat}
    (unloads : plan.ledger.unloadLocation? r trip = some location)
    {route : Route} (found : plan.routes[r]? = some route) : location ∈ p.unloadLocations := by
  obtain ⟨b, _, lies⟩ := (standing.agrees r).base_of_unloadLocation (visits_of_route found) unloads
  exact standing.inRange.sited b location lies

end Standing

/-- In the beginning a plan is standing. -/
theorem standing_empty {p : Problem α} {start : Plan α} (begins : Plan.empty p = .ok start) :
    start.Standing p (max p.destinations.size 1) := by
  refine ⟨⟨?_, withPool_conserves begins, ?_⟩, fun r stops visits => ?_, agrees_empty begins⟩
  · simp only [Plan.empty, Plan.withPool, bind_eq_ok] at begins
    rcases begins with ⟨routes, unused, equal⟩
    cases equal
    rw [itineraries, List.map_map]
    refine map_of_mapM_eq_ok (fun v route found => ?_) unused
    simp only [Route.unused, bind_eq_ok] at found
    rcases found with ⟨_, _, equal⟩
    cases equal
    rfl
  · simp only [Plan.empty, Plan.withPool, bind_eq_ok] at begins
    rcases begins with ⟨routes, _, equal⟩
    cases equal
    exact BasePool.lies_ofSize _ _
  · rw [visits_empty begins visits]
    exact .nil True _

end Plan

end Haulage

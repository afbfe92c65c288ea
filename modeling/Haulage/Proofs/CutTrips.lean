/-
Module: Haulage.Proofs.CutTrips
Purpose: What a base does to the trips of a route into which it is put.  The trip that it falls into is
  cut in two, and those behind it count one further.
Main exports: BasePool.tripIn, Plan.tripAt, Plan.Cuts, Plan.cuts_of_changesAt
-/
import Haulage.Proofs.Unloading

namespace Haulage

/-! ### Trips by their number -/

/-- A trip among some stops, by its number: its jobs in their order and, where a base closes it, the
base with its location. -/
def BasePool.tripIn (pool : BasePool) (stops : List Stop) (trip : Nat) :
    List Nat × Option (Nat × Option Nat) :=
  (jobsOfTrip stops trip,
    (closedTrips stops)[trip]?.map fun t => (t.base, pool.locationOf t.base))

/-- A trip of a route, by its number. -/
def Plan.tripAt {α : Type} (plan : Plan α) (r trip : Nat) : List Nat × Option (Nat × Option Nat) :=
  plan.pool.tripIn (plan.stopsOn r) trip

/-- Jobs that were served before belong to the first trip. -/
theorem tripsOf_served (served : List Nat) (stops : List Stop) :
    (tripsOf served stops).1.map (·.jobs) ++ [(tripsOf served stops).2] =
        ((closedTrips stops).map (·.jobs) ++ [openJobs stops]).modifyHead (served ++ ·) ∧
      (tripsOf served stops).1.map (·.base) = (closedTrips stops).map (·.base) := by
  obtain ⟨lead, rfl | ⟨b, rest, rfl⟩⟩ := exists_lead stops
  · simp [closedTrips, openJobs, tripsOf_destinations]
  · simp [closedTrips, openJobs, tripsOf_lead]

section

variable (pool : BasePool) (front rest : List Stop)

theorem BasePool.tripIn_eq (stops : List Stop) (trip : Nat) :
    pool.tripIn stops trip = (jobsOfTrip stops trip,
      ((closedTrips stops).map (·.base))[trip]?.map fun b => (b, pool.locationOf b)) := by
  rw [tripIn, List.getElem?_map, Option.map_map]
  rfl

/-- Trips that are closed before some point are the same whatever follows. -/
theorem BasePool.tripIn_before {trip : Nat} (early : trip < basesIn front) :
    pool.tripIn (front ++ rest) trip = pool.tripIn front trip := by
  have closed : trip < (closedTrips front).length := by simpa using early
  have same : (closedTrips (front ++ rest))[trip]? = (closedTrips front)[trip]? := by
    rw [closedTrips_append, List.getElem?_append_left closed]
  have found := List.getElem?_eq_getElem closed
  rw [tripIn, tripIn, same, jobsOfTrip_closed found, jobsOfTrip_closed (same.trans found)]

/-- The trip under way at some point goes on with the first trip of what follows. -/
theorem BasePool.tripIn_under_way :
    pool.tripIn (front ++ rest) (basesIn front) =
      (openJobs front ++ (pool.tripIn rest 0).1, (pool.tripIn rest 0).2) := by
  rw [tripIn_eq, tripIn_eq, jobsOfTrip_append, closedTrips_append, List.map_append,
    (tripsOf_served _ rest).2, List.getElem?_append_right (by simp)]
  simp

/-- The trips behind it are those of what follows. -/
theorem BasePool.tripIn_behind (i : Nat) :
    pool.tripIn (front ++ rest) (basesIn front + (i + 1)) = pool.tripIn rest (i + 1) := by
  have jobs : jobsOfTrip (front ++ rest) (basesIn front + (i + 1)) = jobsOfTrip rest (i + 1) := by
    rw [jobsOfTrip, closedTrips_append, openJobs_append, List.map_append, List.append_assoc,
      (tripsOf_served _ rest).1, List.getElem?_append_right (by simp)]
    simp [jobsOfTrip]
  rw [tripIn_eq, tripIn_eq, jobs, closedTrips_append, List.map_append, (tripsOf_served _ rest).2,
    List.getElem?_append_right (by simp)]
  simp

/-- A base in front of some stops closes a trip without jobs. -/
theorem BasePool.tripIn_base_zero (b : Nat) :
    pool.tripIn (.base b :: rest) 0 = ([], some (b, pool.locationOf b)) := rfl

theorem BasePool.tripIn_base_succ (b trip : Nat) :
    pool.tripIn (.base b :: rest) (trip + 1) = pool.tripIn rest trip := rfl

variable {pool front rest} in
theorem BasePool.tripIn_congr {other : BasePool}
    (same : ∀ b, .base b ∈ rest → other.locationOf b = pool.locationOf b) (trip : Nat) :
    other.tripIn rest trip = pool.tripIn rest trip := by
  rw [tripIn, tripIn]
  refine congrArg _ ?_
  cases found : (closedTrips rest)[trip]? with
  | none => rfl
  | some t =>
      have member := (stops_of_mem_closedTrips (List.mem_of_getElem? found)).1
      simp only [Option.map_some, same t.base member]

end

/-! ### A trip that is cut in two -/

namespace Plan

variable {α : Type} {r trip b location : Nat} {first : List Nat} {plan next : Plan α}

/-- A trip of a route was cut in two.  Its first jobs are on the trip that a base closes at a location;
the others follow on the next one, which has the base and the location that the trip had, or is open as
it was.  All other trips are as before, and those behind count one further. -/
structure Cuts (r trip b location : Nat) (first : List Nat) (plan next : Plan α) : Prop where
  early : ∀ i < trip, next.tripAt r i = plan.tripAt r i
  closed : next.tripAt r trip = (first, some (b, some location))
  rest : plan.tripAt r trip =
    (first ++ (next.tripAt r (trip + 1)).1, (next.tripAt r (trip + 1)).2)
  behind : ∀ i, trip < i → next.tripAt r (i + 1) = plan.tripAt r i
  elsewhere : ∀ other i, other ≠ r → next.tripAt other i = plan.tripAt other i

theorem Visits.tripAt_eq {stops : List Stop} (visits : plan.Visits r stops) (i : Nat) :
    plan.tripAt r i = plan.pool.tripIn stops i := by
  rw [tripAt, visits.stopsOn_eq]

/-- Where a route has the same stops, and its bases lie where they lay, its trips are the same. -/
theorem tripAt_congr (same : next.stopsOn r = plan.stopsOn r)
    (locations : ∀ stops c, plan.Visits r stops → .base c ∈ stops →
      next.pool.locationOf c = plan.pool.locationOf c) (i : Nat) :
    next.tripAt r i = plan.tripAt r i := by
  rw [tripAt, tripAt, same]
  refine BasePool.tripIn_congr (fun c member => ?_) i
  have inside : r ∈ plan.routeIds := by
    by_contra outside
    have absent : plan.itineraries[r]? = none :=
      List.getElem?_eq_none (by simpa [itineraries, routeIds] using outside)
    rw [stopsOn, absent] at member
    cases member
  exact locations _ c (visits_of_mem_routeIds inside) member

/-- A change of one route changes no trip of another. -/
theorem ChangesAt.tripAt_eq {other : Nat} (changes : ChangesAt r plan next) (apart : r ≠ other)
    (i : Nat) : next.tripAt other i = plan.tripAt other i :=
  tripAt_congr (changes.stopsOn_eq apart)
    (fun stops c => changes.locations other stops c apart) i

/-- A base that is put between two stops of a route cuts the trip that it falls into. -/
theorem cuts_of_changesAt {front rest : List Stop} (changes : ChangesAt r plan next)
    (visits : plan.Visits r (front ++ rest)) (visitsNext : next.Visits r (front ++ .base b :: rest))
    (placed : next.pool.locationOf b = some location)
    (kept : ∀ c, .base c ∈ front ++ rest → next.pool.locationOf c = plan.pool.locationOf c) :
    plan.Cuts r (basesIn front) b location (openJobs front) next := by
  have keptFront : ∀ c, .base c ∈ front → next.pool.locationOf c = plan.pool.locationOf c :=
    fun c member => kept c (List.mem_append_left rest member)
  have keptRest : ∀ c, .base c ∈ rest → next.pool.locationOf c = plan.pool.locationOf c :=
    fun c member => kept c (List.mem_append_right front member)
  have further (i : Nat) :
      next.tripAt r (basesIn front + (i + 1)) = plan.pool.tripIn rest i := by
    rw [visitsNext.tripAt_eq, BasePool.tripIn_behind, BasePool.tripIn_base_succ,
      BasePool.tripIn_congr keptRest]
  constructor
  · intro i early
    rw [visits.tripAt_eq, visitsNext.tripAt_eq, BasePool.tripIn_before _ _ _ early,
      BasePool.tripIn_before _ _ _ early, BasePool.tripIn_congr keptFront]
  · rw [visitsNext.tripAt_eq, BasePool.tripIn_under_way, BasePool.tripIn_base_zero, placed,
      List.append_nil]
  · rw [visits.tripAt_eq, BasePool.tripIn_under_way, further 0]
  · intro i late
    obtain ⟨k, rfl⟩ : ∃ k, i = basesIn front + (k + 1) := ⟨i - basesIn front - 1, by omega⟩
    rw [Nat.add_assoc, further (k + 1), visits.tripAt_eq, BasePool.tripIn_behind]
  · exact fun other i apart => changes.tripAt_eq (Ne.symm apart) i

end Plan

end Haulage

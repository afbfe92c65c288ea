/-
Module: Haulage.Proofs.UnloadTimes
Purpose: How long unloading takes where a placement of all bases has put them.  Each base is placed
  with a view to the time at which the vehicle comes to it, and what the placement does after that
  does not change this time.
Main exports: Route.UnloadsAsReached, Work.Timed, Work.placeRoute_timed, placeAll_unloadsAsReached
-/
import Haulage.Proofs.Fresh
import Haulage.Proofs.WholeTrips

namespace Haulage

variable {α : Type} [Quantity α]

open Attempt Plan

/-- A base at a position of a route takes as long as the service times say for the vehicle, the
location of the base and the time at which the vehicle reaches it. -/
def Route.UnloadsAsReached (p : Problem α) (serviceTimes : ServiceTimes α) (pool : BasePool)
    (route : Route) (i : Nat) : Prop :=
  ∀ b, route.stops[i]? = some (.base b) → ∃ v base location visit,
    p.vehicle route.vehicle = .ok v ∧ pool.base b = .ok base ∧ base.location = some location ∧
    route.visits[i]? = some visit ∧ serviceTimes v location visit.arrival = .ok base.duration

section

variable {p : Problem α} {serviceTimes : ServiceTimes α} {plan other : Plan α} {r i : Nat}
  {route now : Route}

/-- What a base takes follows from the stops up to it and from the bases among them. -/
theorem Route.UnloadsAsReached.congr {front back backNow : List Stop}
    (unloads : route.UnloadsAsReached p serviceTimes plan.pool i)
    (current : plan.Current p r route) (again : other.Current p r now)
    (vehicle : now.vehicle = route.vehicle) (departure : now.fixedDeparture = route.fixedDeparture)
    (split : route.stops = front ++ back) (splitNow : now.stops = front ++ backNow)
    (same : ∀ b, .base b ∈ front → other.pool.base b = plan.pool.base b)
    (inside : i < front.length) : now.UnloadsAsReached p serviceTimes other.pool i := by
  intro b here
  rw [splitNow, List.getElem?_append_left inside] at here
  have before : route.stops[i]? = some (.base b) := by
    rw [split, List.getElem?_append_left inside]
    exact here
  obtain ⟨v, base, location, visit, driven, lies, located, reached, takes⟩ := unloads b before
  refine ⟨v, base, location, visit, vehicle ▸ driven, ?_, located, ?_, takes⟩
  · rw [same b (List.mem_of_getElem? here)]
    exact lies
  · rw [current.visit_eq again vehicle departure split splitNow same inside]
    exact reached

/-- The vehicle reaches a base behind a job in the time that the way from the job takes. -/
theorem Plan.Current.reaches_base {front back : List Stop} {job b location : Nat} {base : Base}
    (current : plan.Current p r route)
    (split : route.stops = front ++ .destination job :: .base b :: back)
    (lies : plan.pool.base b = .ok base) (located : base.location = some location) :
    ∃ v d left visit, p.vehicle route.vehicle = .ok v ∧ p.destination job = .ok d ∧
      route.visits[front.length]? = some left ∧ route.visits[front.length + 1]? = some visit ∧
      p.arrival v (some d.location) (some location) left.departure = .ok visit.arrival := by
  have whole : route.stops = (front ++ [.destination job]) ++ .base b :: back := by simp [split]
  obtain ⟨v, early, here, leaving, late, _, _, departs, tail, _, visits⟩ := current.split whole
  obtain ⟨d, left, served, rfl, last, rfl⟩ := departs.behind_job
  have length : early.length = front.length + 1 := by simp [departs.length_eq]
  simp only [Route.visitsFrom, Problem.stopLocation, lies, bind_eq_ok] at tail
  rcases tail with ⟨_, ⟨_, same, equal⟩, arrival, arrives, leaving, _, waiting, _, ⟨_, _, _⟩, _, behind⟩
  cases same
  rw [located] at equal
  cases equal
  cases behind
  refine ⟨v, d, left, ⟨arrival, leaving, waiting⟩, departs.driven, served, ?_, ?_, arrives⟩
  · rw [visits, List.getElem?_append_left (by omega)]
    exact last
  · rw [visits, List.getElem?_append_right (by omega), length, Nat.sub_self]
    rfl

omit [Quantity α] in
/-- A route that stays as it is with its bases. -/
theorem Route.UnloadsAsReached.elsewhere
    (unloads : route.UnloadsAsReached p serviceTimes plan.pool i)
    (found : plan.routes[r]? = some route) (same : SameRoute r plan other) :
    route.UnloadsAsReached p serviceTimes other.pool i := by
  intro b here
  obtain ⟨v, base, location, visit, driven, lies, known⟩ := unloads b here
  refine ⟨v, base, location, visit, driven, ?_, known⟩
  rw [same.bases route.stops b (visits_of_route found) (List.mem_of_getElem? here)]
  exact lies

end

/-! ### What a visit changes -/

section

variable {p : Problem α} {settings : Settings α} {r b location : Nat} {placed rest : List Stop}
  {trip : List Nat} {duration : Duration} {w next : Work α}

theorem Places.changesOnly
    (places : Places p settings r placed trip b rest location duration w next) :
    ChangesOnly r w.plan next.plan := by
  rcases places.plan_eq with ⟨plan, put, refreshed⟩
  obtain ⟨_, rfl⟩ := placeBase_eq_ok.mp put
  have laid : ChangesOnly r w.plan
      { w.plan with pool := w.plan.pool.placed b location duration } :=
    changesOnly_of_keeps rfl rfl
  exact laid.trans (changesOnly_refreshRoute refreshed)

theorem Drops.changesOnly (drops : Drops p r placed trip b rest w next) :
    ChangesOnly r w.plan next.plan := by
  rcases drops.plan_eq with ⟨route, plan, _, _, handed, refreshed⟩
  obtain ⟨routes, ledger⟩ := handBackAll_keeps handed
  have taken : ChangesOnly r w.plan plan := changesOnly_of_set ⟨_, routes⟩ ledger
  exact taken.trans (changesOnly_refreshRoute refreshed)

theorem changesOnly_repairRoute {plan after : Plan α} (done : plan.repairRoute p r = .ok after) :
    ChangesOnly r plan after := by
  simp only [Plan.repairRoute, bind_eq_ok] at done
  rcases done with ⟨⟨count, cleared⟩, tidied, refreshed⟩
  obtain ⟨route, _, _, handed⟩ := clearIdleBases_eq_ok.mp tidied
  obtain ⟨routes, ledger⟩ := handBackAll_keeps handed
  have taken : ChangesOnly r plan cleared := changesOnly_of_set ⟨_, routes⟩ ledger
  exact taken.trans (changesOnly_refreshRoute refreshed)

/-- A route that was repaired is up to date. -/
theorem current_of_repairRoute {plan after : Plan α} (done : plan.repairRoute p r = .ok after) :
    ∃ route, after.Current p r route := by
  simp only [Plan.repairRoute, bind_eq_ok] at done
  rcases done with ⟨_, _, refreshed⟩
  exact current_of_refreshRoute refreshed (.inl rfl)

end

/-- Behind some stops and the jobs of a trip comes the first base, if any. -/
theorem length_le_of_base {front rest : List Stop} {trip : List Nat} {i b : Nat}
    (here : (front ++ (trip.map .destination ++ rest))[i]? = some (.base b))
    (beyond : front.length ≤ i) : front.length + trip.length ≤ i := by
  by_contra short
  rw [List.getElem?_append_right beyond, List.getElem?_append_left (by simp; omega),
    List.getElem?_map] at here
  obtain ⟨job, _, equal⟩ := Option.map_eq_some_iff.mp here
  cases equal

omit [Quantity α] in
/-- A route that loses some of its stops shares none of them with other routes, so that their bases
stay as they are. -/
theorem Plan.Trims.changesAt {plan next : Plan α} {r : Nat} {stops kept : List Stop}
    {jobs : List Nat} (trims : Trims r stops kept jobs plan next) (apart : plan.Apart)
    (changes : ChangesOnly r plan next) : ChangesAt r plan next := by
  refine ⟨changes, fun i others b differ visits member => trims.elsewhere b fun own => ?_⟩
  rcases trims.itineraries with ⟨vehicle, found, _⟩
  exact apart.routes r i stops others differ ⟨vehicle, found⟩ visits _ own member

namespace Work

section

variable {p : Problem α} {settings : Settings α} {r b location : Nat} {begins : Plan α}
  {stops ahead : List Stop} {passed : List (Trip × Bool)} {trip removed : List Nat}
  {s now : PlacementState α} {query : LocationQuery α} {w next last : Work α}

theorem putBase_eq_ok (put : putBase p settings r s b location query w w = .ok () next) :
    ∃ plan, placeAt p settings w.plan r b location query (s.tripStart + s.passed) = .ok plan ∧
      plan.refreshRoute p r = .ok next.plan := by
  simp only [putBase, bind_answers, ofResult_answers] at put
  rcases put with ⟨plan, _, ⟨placed, rfl⟩, _, _, _, volumes, _, ⟨_, rfl⟩, fresh, _, ⟨refreshed, rfl⟩,
    equal⟩
  cases equal
  exact ⟨plan, placed, refreshed⟩

/-- A base that is put behind a job is reached when the search for its location said. -/
theorem unloadsAsReached_putBase {route : Route} {before after : List Stop} {job : Nat}
    (current : w.plan.Current p r route)
    (split : route.stops = before ++ .destination job :: .base b :: after)
    (once : route.stops.Nodup) (position : s.tripStart + s.passed = before.length + 1)
    (asked : placementQuery p w.plan r s = .ok query)
    (put : putBase p settings r s b location query w w = .ok () next) :
    ∃ fresh, next.plan.Current p r fresh ∧ fresh.vehicle = route.vehicle ∧
      fresh.fixedDeparture = route.fixedDeparture ∧ fresh.stops = route.stops ∧
      fresh.UnloadsAsReached p settings.serviceTimes next.plan.pool (before.length + 1) := by
  obtain ⟨plan, placed, refreshed⟩ := putBase_eq_ok put
  obtain ⟨_, visit, arrival, duration, found, left, arrives, takes, laid⟩ := placeAt_eq_ok.mp placed
  cases current.found.symm.trans found
  obtain ⟨inside, rfl⟩ := placeBase_eq_ok.mp laid
  let moved : Plan α := { w.plan with pool := w.plan.pool.placed b location duration }
  have foundThere : moved.routes[r]? = some route := found
  obtain ⟨fresh, currentNow, vehicle, departure, stops⟩ := current_refreshRoute foundThere refreshed
  have pool : next.plan.pool = w.plan.pool.placed b location duration :=
    (refreshRoute_keeps refreshed).2.1
  obtain ⟨base, lies⟩ : ∃ base : Base,
      (w.plan.pool.placed b location duration).base b = .ok (base.place location duration) :=
    BasePool.base_placed_self inside
  rw [← pool] at lies
  obtain ⟨v, d, departing, reached, driven, served, job_left, base_reached, comes⟩ :=
    currentNow.reaches_base (stops.trans split) lies rfl
  obtain ⟨drivenBefore, ⟨d', servedBefore, previous⟩, _⟩ :=
    placementQuery_behind_job found split position asked
  -- No base up to the job has moved, so the vehicle leaves the job as it did before.
  have again : fresh.visits[before.length]? = some visit := by
    have parts : route.stops = (before ++ [.destination job]) ++ .base b :: after := by simp [split]
    rw [current.visit_eq currentNow vehicle departure parts (stops.trans parts) _ (by simp)]
    · rwa [position] at left
    · intro c member
      rw [pool]
      apply BasePool.base_modifyEntry_of_ne
      rintro rfl
      rw [parts] at once
      exact (List.nodup_append.mp once).2.2 _ member _ List.mem_cons_self rfl
  rw [vehicle] at driven
  cases driven.symm.trans drivenBefore
  cases served.symm.trans servedBefore
  cases job_left.symm.trans again
  rw [previous] at arrives
  cases comes.symm.trans arrives
  refine ⟨fresh, currentNow, vehicle, departure, stops, fun c here => ?_⟩
  have there : fresh.stops[before.length + 1]? = some (.base b) := by simp [stops, split]
  cases there.symm.trans here
  exact ⟨_, _, location, reached, vehicle ▸ driven, lies, rfl, base_reached, takes⟩

/-- A visit that has proceeded has changed no other route. -/
theorem Proceeds.changesOnly {rest : List Stop} {before : List Nat} (once : stops.Nodup)
    (proceeds : Proceeds p settings r s rest w removed now ahead last)
    (reduced : Reduced p r begins stops passed trip before s rest w) :
    ChangesOnly r w.plan last.plan := by
  induction proceeds generalizing passed trip before with
  | stays s rest w => exact changesOnly_of_keeps rfl rfl
  | serves served later inductionHypothesis => exact inductionHypothesis (reduced.serves served)
  | places asked choice put later inductionHypothesis =>
      obtain ⟨duration, places⟩ := places_of_putBase reduced.visiting asked choice put
      exact places.changesOnly.trans (inductionHypothesis (reduced.places places))
  | drops asked choice dropped later inductionHypothesis =>
      obtain ⟨rfl, drops⟩ := drops_of_dropTrip settings reduced.visiting dropped
      exact drops.changesOnly.trans (inductionHypothesis (reduced.drops once drops))

/-! ### The visit of a route -/

/-- A visit of a route that is up to date.  The bases of the trips that were placed take as long as
they do when they are reached. -/
structure Timed (p : Problem α) (settings : Settings α) (r : Nat) (begins : Plan α)
    (stops : List Stop) (passed : List (Trip × Bool)) (trip removed : List Nat)
    (s : PlacementState α) (ahead : List Stop) (w : Work α) : Prop
    extends Reduced p r begins stops passed trip removed s ahead w where
  timely : ∃ route, w.plan.Current p r route ∧ ∀ i < (stopsLeft passed).length,
    route.UnloadsAsReached p settings.serviceTimes w.plan.pool i

theorem Timed.serves {job : Nat} {d : Destination α}
    (timed : Timed p settings r begins stops passed trip removed s (.destination job :: ahead) w)
    (served : p.destination job = .ok d) :
    Timed p settings r begins stops passed (trip ++ [job]) removed
      { s with passed := s.passed + 1, load := s.load + d.demand } ahead w :=
  ⟨timed.toReduced.serves served, timed.timely⟩

/-- The trip under way is closed by its base. -/
theorem Timed.places (once : stops.Nodup) (serves : ∀ t ∈ closedTrips stops, t.jobs ≠ [])
    (timed : Timed p settings r begins stops passed trip removed s (.base b :: ahead) w)
    (asked : placementQuery p w.plan r s = .ok query)
    (choice : cheapestLoadable p settings.provider w.volumes query s.load = .ok (some location))
    (put : putBase p settings r s b location query w w = .ok () next) :
    Timed p settings r begins stops (passed ++ [(⟨trip, b⟩, true)]) [] removed (s.behind location)
      ahead next := by
  have reduced := timed.toReduced
  obtain ⟨_, places⟩ := places_of_putBase reduced.visiting asked choice put
  refine ⟨reduced.places places, ?_⟩
  obtain ⟨jobs, job, rfl⟩ : ∃ jobs job, trip = jobs ++ [job] :=
    ⟨_, _, (List.dropLast_append_getLast (reduced.trip_ne_nil serves)).symm⟩
  obtain ⟨route, current, earlier⟩ := timed.timely
  have whole := reduced.visiting.visits.unique (visits_of_route current.found)
  have onceNow := once.sublist reduced.trims.sublist
  have count : (stopsLeft passed ++ jobs.map Stop.destination).length =
      (stopsLeft passed).length + jobs.length := by simp
  have position : s.tripStart + s.passed =
      (stopsLeft passed ++ jobs.map Stop.destination).length + 1 := by
    simp [reduced.visiting.start_eq, reduced.visiting.passed_eq]
    omega
  have split : route.stops =
      (stopsLeft passed ++ jobs.map .destination) ++ .destination job :: .base b :: ahead := by
    simp [← whole]
  obtain ⟨fresh, currentNow, vehicle, departure, sameStops, own⟩ :=
    unloadsAsReached_putBase current split (whole ▸ onceNow) position asked put
  refine ⟨fresh, currentNow, fun i within => ?_⟩
  by_cases old : i < (stopsLeft passed).length
  · refine (earlier i old).congr current currentNow vehicle departure whole.symm
      (sameStops.trans whole.symm) (fun c member => places.base_of_ne ?_) old
    rintro rfl
    exact (List.nodup_append.mp onceNow).2.2 _ member _ (by simp) rfl
  · intro c here
    have beyond : (stopsLeft passed).length + (jobs ++ [job]).length ≤ i := by
      rw [sameStops, ← whole] at here
      exact length_le_of_base here (Nat.le_of_not_lt old)
    have long : (stopsLeft (passed ++ [(⟨jobs ++ [job], b⟩, true)])).length =
        (stopsLeft passed).length + jobs.length + 2 := by
      simp [stopsLeft, Trip.stops, Nat.add_assoc]
    rw [List.length_append, List.length_singleton] at beyond
    obtain rfl : i = (stopsLeft passed ++ jobs.map Stop.destination).length + 1 := by omega
    exact own c here

/-- The trip under way is taken out. -/
theorem Timed.drops (once : stops.Nodup)
    (timed : Timed p settings r begins stops passed trip removed s (.base b :: ahead) w)
    (drops : Drops p r (stopsLeft passed) trip b ahead w next) :
    Timed p settings r begins stops (passed ++ [(⟨trip, b⟩, false)]) [] (removed ++ trip) s.atTrip
      ahead next := by
  have reduced := timed.toReduced
  have onceNow := once.sublist reduced.trims.sublist
  refine ⟨reduced.drops once drops, ?_⟩
  obtain ⟨route, current, earlier⟩ := timed.timely
  obtain ⟨fresh, currentNow, vehicle, departure, stops, whole⟩ : ∃ fresh,
      next.plan.Current p r fresh ∧ fresh.vehicle = route.vehicle ∧
        fresh.fixedDeparture = route.fixedDeparture ∧ fresh.stops = stopsLeft passed ++ ahead ∧
        route.stops = stopsLeft passed ++ (trip.map .destination ++ .base b :: ahead) := by
    rcases drops.plan_eq with ⟨before, plan, found, whole, handed, refreshed⟩
    cases current.found.symm.trans found
    have shorter : plan.routes[r]? = some { route with stops := stopsLeft passed ++ ahead } := by
      rw [(handBackAll_keeps handed).1]
      exact routes_setRoute_self found
    obtain ⟨fresh, currentNow, vehicle, departure, stops⟩ := current_refreshRoute shorter refreshed
    exact ⟨fresh, currentNow, vehicle, departure, stops, whole⟩
  have left : stopsLeft (passed ++ [(⟨trip, b⟩, false)]) = stopsLeft passed := by simp [stopsLeft]
  refine ⟨fresh, currentNow, fun i within => ?_⟩
  rw [left] at within
  exact (earlier i within).congr current currentNow vehicle departure whole stops
    (fun c member => drops.base_of_placed onceNow member) within

/-- All bases take as long as they do when they are reached, as far as a visit has come. -/
theorem Proceeds.timed {rest : List Stop} {before : List Nat} (once : stops.Nodup)
    (serves : ∀ t ∈ closedTrips stops, t.jobs ≠ [])
    (proceeds : Proceeds p settings r s rest w removed now ahead last)
    (timed : Timed p settings r begins stops passed trip before s rest w) :
    ∃ passed trip, Timed p settings r begins stops passed trip (before ++ removed) now ahead
      last := by
  induction proceeds generalizing passed trip before with
  | stays s rest w =>
      rw [List.append_nil]
      exact ⟨passed, trip, timed⟩
  | serves served later inductionHypothesis => exact inductionHypothesis (timed.serves served)
  | places asked choice put later inductionHypothesis =>
      exact inductionHypothesis (timed.places once serves asked choice put)
  | drops asked choice dropped later inductionHypothesis =>
      obtain ⟨rfl, drops⟩ := drops_of_dropTrip settings timed.visiting dropped
      rw [← List.append_assoc]
      exact inductionHypothesis (timed.drops once drops)

/-- When a route has been visited, it is up to date and each of its bases takes as long as it does
when it is reached. -/
theorem placeRoute_timed (visits : w.plan.Visits r stops) (once : stops.Nodup)
    (done : placeRoute p settings r w = .ok removed next) :
    ChangesOnly r w.plan next.plan ∧ ∃ route, next.plan.Current p r route ∧
      ∀ i, route.UnloadsAsReached p settings.serviceTimes next.plan.pool i := by
  obtain ⟨plan, route, repaired, found, visited⟩ := placeRoute_eq_ok.mp done
  have tidied := Trims.repairRoute visits once repaired
  have tidy := tidied.visits.unique (visits_of_route found)
  have serves : ∀ t ∈ closedTrips (splitIdleBases true stops).1, t.jobs ≠ [] := by
    intro t member
    rw [closedTrips_splitIdleBases] at member
    simpa using (List.mem_filter.mp member).2
  have onceNow := once.sublist tidied.sublist
  rw [← tidy] at visited
  obtain ⟨now, proceeds⟩ := placeBases_eq_ok.mp visited
  have begins : Timed p settings r plan (splitIdleBases true stops).1 [] [] []
      ⟨0, 0, .empty, 0, []⟩ (splitIdleBases true stops).1 { w with plan := plan } := by
    refine ⟨.start tidied.visits w.volumes, ?_⟩
    obtain ⟨_, current⟩ := current_of_repairRoute repaired
    exact ⟨_, current, fun i none => absurd none (Nat.not_lt_zero i)⟩
  have changes := proceeds.changesOnly onceNow begins.toReduced
  obtain ⟨passed, trip, timed⟩ := proceeds.timed onceNow serves begins
  obtain ⟨last, current, timely⟩ := timed.timely
  refine ⟨(changesOnly_repairRoute repaired).trans changes, last, current, fun i => ?_⟩
  by_cases inside : i < (stopsLeft passed).length
  · exact timely i inside
  · intro b here
    have whole := timed.visiting.visits.unique (visits_of_route current.found)
    rw [← whole] at here
    have beyond := length_le_of_base here (Nat.le_of_not_lt inside)
    have short := (List.getElem?_eq_some_iff.mp here).1
    simp at short
    omega

end

/-! ### The visits of all routes -/

/-- All bases of the visited routes take as long as they do when they are reached. -/
theorem placeRoutes_timed {p : Problem α} {settings : Settings α} {routes removed : List Nat}
    {w next : Work α} (apart : w.plan.Apart) (distinct : routes.Nodup)
    (done : placeRoutes p settings routes w = .ok removed next) :
    (∀ r, r ∉ routes → SameRoute r w.plan next.plan) ∧
      ∀ r ∈ routes, ∃ route, next.plan.Current p r route ∧
        ∀ i, route.UnloadsAsReached p settings.serviceTimes next.plan.pool i := by
  induction routes generalizing w removed with
  | nil =>
      cases done
      exact ⟨fun r _ => .refl r _, fun r member => absurd member List.not_mem_nil⟩
  | cons r routes inductionHypothesis =>
      obtain ⟨jobs, middle, later, here, there, rfl⟩ := placeRoutes_cons_eq_ok.mp done
      obtain ⟨fresh, others⟩ := List.nodup_cons.mp distinct
      obtain ⟨plan, _, repaired, _⟩ := placeRoute_eq_ok.mp here
      obtain ⟨stops, visits⟩ := visits_of_repairRoute repaired
      have once := apart.once r stops visits
      obtain ⟨kept, trims, _⟩ := placeRoute_trims visits once here
      obtain ⟨changes, route, current, timely⟩ := placeRoute_timed visits once here
      obtain ⟨untouched, each⟩ := inductionHypothesis (apart.thins trims.thins) others there
      constructor
      · intro i outside
        have differ : r ≠ i := fun same => outside (same ▸ List.mem_cons_self)
        exact ((trims.changesAt apart changes).sameRoute differ).trans
          (untouched i fun member => outside (List.mem_cons_of_mem r member))
      · intro i member
        rcases List.mem_cons.mp member with rfl | among
        · have same := untouched i fresh
          exact ⟨route, current.congr same, fun position =>
            (timely position).elsewhere current.found same⟩
        · exact each i among

end Work

/-- In a plan in which no stop occurs twice, each base takes as long, after the placement of all
bases, as the service times say for the vehicle of its route, the location of the base and the time
at which the vehicle reaches it.  The times of the routes are those that follow from their stops. -/
theorem placeAll_unloadsAsReached {p : Problem α} {settings : Settings α} {w next : Work α}
    {removed : List Nat} {r : Nat} {route : Route} (once : w.plan.allStops.Nodup)
    (done : Work.placeAll p settings w = .ok removed next)
    (found : next.plan.routes[r]? = some route) :
    route.reschedule p next.plan.pool = .ok route ∧
      ∀ i, route.UnloadsAsReached p settings.serviceTimes next.plan.pool i := by
  simp only [Work.placeAll, modify_bind, get_bind] at done
  have apart := apart_of_nodup once
  have sheds := Work.placeRoutes_sheds (w := { w with volumes := w.volumes.clear }) apart
    List.nodup_range done
  obtain ⟨_, each⟩ := Work.placeRoutes_timed (w := { w with volumes := w.volumes.clear }) apart
    List.nodup_range done
  have member : r ∈ w.plan.routeIds := by
    rw [routeIds, List.mem_range]
    have inside := (List.getElem?_eq_some_iff.mp found).1
    have length := sheds.length_eq
    simp only [itineraries, List.length_map] at length
    omega
  obtain ⟨_, current, timely⟩ := each r member
  cases current.found.symm.trans found
  exact ⟨current.times, timely⟩

/-- Settings for three jobs under which unloading takes as long as the vehicle has been under way. -/
def tiringUnloads : Settings Rat :=
  { Settings.forProblem threeJobs .standard with
    serviceTimes := fun v _ arrival => .ok (arrival.since v.departure) }

/-- The trip between two others is removed, and the last base is reached twelve seconds after the
first one is left, which takes six. -/
theorem placeAll_unloadsAsReached_tiringUnloads :
    ∃ plan next route, plan.allStops = [.destination 0, .base 0, .destination 1, .base 1,
        .destination 2, .base 2] ∧
      Work.placeAll threeJobs tiringUnloads ⟨plan, .ofSites threeJobs.sites⟩ = .ok [1] next ∧
      next.plan.routes[0]? = some route ∧
      route.stops = [.destination 0, .base 0, .destination 2, .base 2] ∧
      (∀ i, route.UnloadsAsReached threeJobs tiringUnloads.serviceTimes next.plan.pool i) ∧
      next.plan.pool.base 2 = .ok ⟨"base2", some 1, .ofSeconds 24⟩ := by
  have run : (do
      let empty ← Plan.empty threeJobs
      let plan ← empty.appendStops 0
        [.destination 0, .base 0, .destination 1, .base 1, .destination 2, .base 2]
      match Work.placeAll threeJobs tiringUnloads ⟨plan, .ofSites threeJobs.sites⟩ with
      | .error e _ => .error e
      | .ok removed next =>
        let route ← next.plan.route 0
        .ok (plan.allStops, removed, route.stops, ← next.plan.pool.base 2)) =
      Except.ok ([.destination 0, .base 0, .destination 1, .base 1, .destination 2, .base 2], [1],
        [.destination 0, .base 0, .destination 2, .base 2], ⟨"base2", some 1, .ofSeconds 24⟩) := by
    decide +kernel
  simp only [bind_eq_ok] at run
  rcases run with ⟨empty, _, plan, _, run⟩
  cases placed : Work.placeAll threeJobs tiringUnloads ⟨plan, .ofSites threeJobs.sites⟩ with
  | error e after =>
      rw [placed] at run
      cases run
  | ok removed next =>
      rw [placed] at run
      simp only [bind_eq_ok, Except.ok.injEq, Prod.mk.injEq, route_eq_ok] at run
      rcases run with ⟨route, found, base, lies, all, rfl, stops, rfl⟩
      have once : plan.allStops.Nodup := by
        rw [all]
        decide
      obtain ⟨_, timely⟩ := placeAll_unloadsAsReached once placed found
      exact ⟨plan, next, route, all, placed, found, stops, timely, lies⟩

end Haulage

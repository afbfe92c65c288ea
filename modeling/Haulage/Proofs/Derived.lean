/-
Module: Haulage.Proofs.Derived
Purpose: What the ledger holds about a route that was refreshed: the loads and the unload locations
  of its trips, and the load at each stop.
Main exports: BasePool.locationOf, tripEntries, RouteEntry.Agrees, RouteEntry.MadeOf,
  Plan.refreshRoute_agrees
-/
import Haulage.Proofs.Edits
import Haulage.Proofs.Gap
import Haulage.Proofs.Loads

namespace Haulage

variable {α : Type} [Quantity α]

/-- Where a base of the pool lies, if anywhere. -/
def BasePool.locationOf (pool : BasePool) (b : Nat) : Option Nat :=
  (pool.entries[b]?).bind (·.base.location)

theorem BasePool.locationOf_eq {pool : BasePool} {b : Nat} {base : Base}
    (found : pool.base b = .ok base) : pool.locationOf b = base.location := by
  rw [BasePool.base, orOutOfTable_eq_ok, Option.map_eq_some_iff] at found
  rcases found with ⟨e, here, rfl⟩
  simp [locationOf, here]

/-- Where the trip with a number unloads, if it is closed and its base lies somewhere. -/
def BasePool.placeOf (pool : BasePool) (stops : List Stop) (trip : Nat) : Option Nat :=
  ((closedTrips stops)[trip]?).bind fun t => pool.locationOf t.base

/-- The entries for trips with the given jobs.  The trip that no base closes has one as soon as it
has a job. -/
def tripEntries (p : Problem α) (pool : BasePool) (trips : List Trip × List Nat) :
    List (TripEntry α) :=
  trips.1.map (fun t => ⟨some (p.demandOf t.jobs), pool.locationOf t.base⟩) ++
    if trips.2 = [] then [] else [⟨some (p.demandOf trips.2), none⟩]

theorem getElem?_tripEntries {p : Problem α} {pool : BasePool} {stops : List Stop} {k : Nat}
    {t : Trip} (found : (closedTrips stops)[k]? = some t) :
    (tripEntries p pool (tripsOf [] stops))[k]? =
      some ⟨some (p.demandOf t.jobs), pool.locationOf t.base⟩ := by
  obtain ⟨inside, _⟩ := List.getElem?_eq_some_iff.mp found
  rw [tripEntries, ← closedTrips, List.getElem?_append_left (by simpa using inside),
    List.getElem?_map, found]
  rfl

/-- Trips are entered with the demands of their jobs. -/
theorem tripsFrom_eq_ok {p : Problem α} {pool : BasePool} {stops : List Stop}
    {trips : List (TripEntry α)} {loads : List (Load α)} (served : List Nat)
    (done : tripsFrom p pool (p.demandOf served) (!served.isEmpty) stops = .ok (trips, loads)) :
    trips = tripEntries p pool (tripsOf served stops) ∧ loads.length = stops.length := by
  induction stops generalizing served trips loads with
  | nil =>
      cases done
      cases served with
      | nil => exact ⟨rfl, rfl⟩
      | cons job rest => simp [tripEntries, tripsOf]
  | cons stop rest inductionHypothesis =>
      cases stop with
      | destination job =>
          simp only [tripsFrom, bind_eq_ok] at done
          rcases done with ⟨d, found, ⟨later, loadsLater⟩, derived, equal⟩
          cases equal
          rw [← Problem.demand_eq found, ← Problem.demandOf_append_singleton] at derived
          have known : (!(served ++ [job]).isEmpty) = true := by simp
          rw [← known] at derived
          obtain ⟨rfl, length⟩ := inductionHypothesis (served ++ [job]) derived
          exact ⟨rfl, by simp [length]⟩
      | base b =>
          simp only [tripsFrom, bind_eq_ok] at done
          rcases done with ⟨base, found, ⟨later, loadsLater⟩, derived, equal⟩
          cases equal
          obtain ⟨rfl, length⟩ := inductionHypothesis [] derived
          refine ⟨?_, by simp [length]⟩
          rw [← BasePool.locationOf_eq found]
          rfl

/-- Behind some stops the trips follow from the jobs served by then on the trip under way. -/
theorem tripsFrom_append {p : Problem α} {pool : BasePool} {front back : List Stop} {known : Bool}
    {trips : List (TripEntry α)} {loads : List (Load α)} (served : List Nat)
    (done : tripsFrom p pool (p.demandOf served) known (front ++ back) = .ok (trips, loads)) :
    ∃ going later, tripsFrom p pool (p.demandOf (tripsOf served front).2) going back =
      .ok (later, loads.drop front.length) := by
  induction front generalizing served known trips loads with
  | nil => exact ⟨known, trips, done⟩
  | cons stop front inductionHypothesis =>
      cases stop with
      | destination job =>
          simp only [List.cons_append, tripsFrom, bind_eq_ok] at done
          rcases done with ⟨d, found, ⟨later, loadsLater⟩, derived, equal⟩
          cases equal
          rw [← Problem.demand_eq found, ← Problem.demandOf_append_singleton] at derived
          exact inductionHypothesis _ derived
      | base b =>
          simp only [List.cons_append, tripsFrom, bind_eq_ok] at done
          rcases done with ⟨base, found, ⟨later, loadsLater⟩, derived, equal⟩
          cases equal
          exact inductionHypothesis [] derived

/-- The load at a stop is that of the jobs served on its trip by then. -/
theorem tripsFrom_load {p : Problem α} {pool : BasePool} {before after : List Stop} {stop : Stop}
    {known : Bool} {trips : List (TripEntry α)} {loads : List (Load α)} (served : List Nat)
    (done : tripsFrom p pool (p.demandOf served) known (before ++ stop :: after) =
      .ok (trips, loads)) :
    loads[before.length]? =
      some (p.demandOf ((tripsOf served before).2 ++ stop.job?.toList)) := by
  obtain ⟨_, _, behind⟩ := tripsFrom_append served done
  rw [← List.head?_drop]
  cases stop with
  | destination job =>
      simp only [tripsFrom, bind_eq_ok] at behind
      obtain ⟨d, found, _, _, equal⟩ := behind
      rw [← (Prod.mk.inj (Except.ok.inj equal)).2, ← Problem.demand_eq found,
        ← Problem.demandOf_append_singleton]
      rfl
  | base b =>
      simp only [tripsFrom, bind_eq_ok] at behind
      obtain ⟨base, found, _, _, equal⟩ := behind
      rw [← (Prod.mk.inj (Except.ok.inj equal)).2]
      simp [Stop.job?]

/-! ### The entry of a route -/

/-- What the ledger holds about a route follows from the stops of the route. -/
structure RouteEntry.Agrees (p : Problem α) (pool : BasePool) (stops : List Stop)
    (e : RouteEntry α) : Prop where
  trips_eq : e.trips = tripEntries p pool (tripsOf [] stops)
  count_eq : e.tripCount.getD 0 = basesIn stops
  load_at : ∀ before job after, stops = before ++ .destination job :: after →
    (e.stops[before.length]?).map (·.load) = some (p.demandOf (openJobs before ++ [job]))

/-- Nothing is known about a route that has no stops. -/
theorem RouteEntry.agrees_unknown (p : Problem α) (pool : BasePool) :
    RouteEntry.Agrees p pool [] .unknown := by
  refine ⟨rfl, rfl, fun before job after split => ?_⟩
  simp at split

/-- There are as many visits as stops. -/
theorem length_visitsFrom {p : Problem α} {pool : BasePool} {v : Vehicle α} {stops : List Stop}
    {place last : Option Nat} {departure leaving : Instant} {visits : List Visit}
    (done : Route.visitsFrom p pool v place departure stops = .ok (visits, last, leaving)) :
    visits.length = stops.length := by
  induction stops generalizing place departure visits with
  | nil =>
      cases done
      rfl
  | cons stop rest inductionHypothesis =>
      simp only [Route.visitsFrom, bind_eq_ok] at done
      rcases done with ⟨_, _, _, _, _, _, _, _, ⟨later, _, _⟩, tail, equal⟩
      cases equal
      simp [inductionHypothesis tail]

theorem Route.length_visits {p : Problem α} {pool : BasePool} {route fresh : Route}
    (done : route.reschedule p pool = .ok fresh) : fresh.visits.length = fresh.stops.length := by
  simp only [Route.reschedule, bind_eq_ok] at done
  obtain ⟨v, _, departure, _, ⟨visits, place, leaving⟩, visited, arrival, _, equal⟩ := done
  cases equal
  exact length_visitsFrom visited

theorem length_missesOf {p : Problem α} {departure : Instant} {stops : List Stop}
    {visits : List Visit} {misses : List (Miss α)}
    (done : missesOf p departure stops visits = .ok misses) : misses.length = stops.length := by
  induction stops generalizing visits misses with
  | nil =>
      cases done
      rfl
  | cons stop rest inductionHypothesis =>
      cases stop with
      | destination job =>
          cases visits with
          | nil => cases done
          | cons visit visits =>
              simp only [missesOf, bind_eq_ok] at done
              rcases done with ⟨_, _, later, tail, equal⟩
              cases equal
              simp [inductionHypothesis tail]
      | base b =>
          simp only [missesOf, bind_eq_ok] at done
          rcases done with ⟨later, tail, equal⟩
          cases equal
          simp [inductionHypothesis tail]

theorem length_futureMaxLoads (stops : List (Stop × Load α)) :
    (futureMaxLoads stops).length = stops.length := by
  induction stops with
  | nil => rfl
  | cons stop rest inductionHypothesis =>
      rcases stop with ⟨stop, load⟩
      cases stop with
      | destination job => simp [futureMaxLoads, inductionHypothesis]
      | base b => simp [futureMaxLoads, inductionHypothesis]

theorem length_pastMisses (waiting lateness : α) (misses : List (Miss α)) :
    (pastMisses waiting lateness misses).length = misses.length + 1 := by
  induction misses generalizing waiting lateness with
  | nil => rfl
  | cons miss rest inductionHypothesis => simp [pastMisses, inductionHypothesis]

theorem length_futureMisses (endLate : Option α) (misses : List (Miss α)) :
    (futureMisses endLate misses).length = misses.length + 1 := by
  induction misses with
  | nil => rfl
  | cons miss rest inductionHypothesis => simp [futureMisses, inductionHypothesis]

/-! ### Routes of which all stops are known -/

section

variable {p : Problem α} {pool : BasePool} {stops : List Stop}

theorem tripsFrom_answers (known : ∀ stop ∈ stops, ∃ here, p.stopLocation pool stop = .ok here)
    (load : Load α) (served : Bool) : ∃ trips, tripsFrom p pool load served stops = .ok trips := by
  induction stops generalizing load served with
  | nil => exact ⟨_, rfl⟩
  | cons stop rest inductionHypothesis =>
      have later := inductionHypothesis fun stop member => known stop (List.mem_cons_of_mem _ member)
      obtain ⟨here, lies⟩ := known stop List.mem_cons_self
      cases stop with
      | destination job =>
          obtain ⟨d, found, _⟩ := bind_eq_ok.mp lies
          obtain ⟨trips, tail⟩ := later (load + d.demand) true
          exact ⟨_, bind_eq_ok.mpr ⟨d, found, bind_eq_ok.mpr ⟨trips, tail, rfl⟩⟩⟩
      | base b =>
          obtain ⟨base, found, _⟩ := bind_eq_ok.mp lies
          obtain ⟨trips, tail⟩ := later .empty false
          exact ⟨_, bind_eq_ok.mpr ⟨base, found, bind_eq_ok.mpr ⟨trips, tail, rfl⟩⟩⟩

theorem missesOf_answers (known : ∀ stop ∈ stops, ∃ here, p.stopLocation pool stop = .ok here)
    (departure : Instant) {visits : List Visit} (long : visits.length = stops.length) :
    ∃ misses, missesOf p departure stops visits = .ok misses := by
  induction stops generalizing visits with
  | nil => exact ⟨_, rfl⟩
  | cons stop rest inductionHypothesis =>
      obtain ⟨here, lies⟩ := known stop List.mem_cons_self
      cases visits with
      | nil => cases long
      | cons visit visits =>
          have shorter : visits.length = rest.length := by simpa using long
          obtain ⟨misses, tail⟩ := inductionHypothesis
            (fun stop member => known stop (List.mem_cons_of_mem _ member)) shorter
          cases stop with
          | destination job =>
              obtain ⟨d, found, _⟩ := bind_eq_ok.mp lies
              exact ⟨_, bind_eq_ok.mpr ⟨d, found, bind_eq_ok.mpr ⟨misses, tail, rfl⟩⟩⟩
          | base b => exact ⟨_, bind_eq_ok.mpr ⟨misses, tail, rfl⟩⟩

/-- The entry of a route with a known vehicle, all stops of which are known and have times. -/
theorem RouteEntry.derive_answers {route : Route} {v : Vehicle α}
    (driven : p.vehicle route.vehicle = .ok v)
    (known : ∀ stop ∈ route.stops, ∃ here, p.stopLocation pool stop = .ok here)
    (long : route.visits.length = route.stops.length) :
    ∃ entry, derive p pool route = .ok entry := by
  obtain ⟨trips, derived⟩ := tripsFrom_answers known .empty false
  obtain ⟨misses, missed⟩ := missesOf_answers known v.departure long
  exact ⟨_, bind_eq_ok.mpr ⟨v, driven, bind_eq_ok.mpr ⟨trips, derived,
    bind_eq_ok.mpr ⟨misses, missed, rfl⟩⟩⟩⟩

end

/-! ### The parts of an entry -/

/-- The seconds by which the end of the shift is missed, with their sign. -/
def Route.endMiss (v : Vehicle α) (route : Route) : Option α :=
  v.latestEnd.map fun latest => (route.endArrival.since latest).seconds

/-- How the entry of a route is made up: of its trips, of the loads at its stops, and of the misses
of their windows.  At a stop the misses before it and behind it are noted. -/
structure RouteEntry.MadeOf (p : Problem α) (pool : BasePool) (route : Route) (v : Vehicle α)
    (loads : List (Load α)) (misses : List (Miss α)) (e : RouteEntry α) : Prop where
  driven : p.vehicle route.vehicle = .ok v
  derived : tripsFrom p pool .empty false route.stops = .ok (e.trips, loads)
  missed : missesOf p v.departure route.stops route.visits = .ok misses
  count_eq : e.tripCount = some (basesIn route.stops)
  stops_length : e.stops.length = route.stops.length
  stop_at : ∀ i < route.stops.length, ∃ load highest past future, loads[i]? = some load ∧
    (futureMaxLoads (route.stops.zip loads))[i]? = some highest ∧
    (pastMisses 0 0 misses)[i]? = some past ∧
    (futureMisses (route.endMiss v) misses)[i + 1]? = some future ∧
    e.stops[i]? = some ⟨load, highest, past.1, past.2, future.early, future.late⟩
  start_eq : e.startSlack = (futureMisses (route.endMiss v) misses).head?.map fun future =>
    ⟨0, 0, future.early, future.late⟩
  end_eq : e.endSlack = (pastMisses 0 0 misses).getLast?.map fun past =>
    ⟨past.1, past.2, none, route.endMiss v⟩

section

variable {p : Problem α} {pool : BasePool} {route : Route} {e : RouteEntry α}

theorem RouteEntry.derive_eq_ok (done : RouteEntry.derive p pool route = .ok e) :
    ∃ v loads misses, e.MadeOf p pool route v loads misses := by
  simp only [derive, bind_eq_ok] at done
  rcases done with ⟨v, driven, ⟨trips, loads⟩, derived, misses, missed, equal⟩
  cases equal
  obtain ⟨_, length⟩ := tripsFrom_eq_ok [] derived
  have many := length_missesOf missed
  have highest : (futureMaxLoads (route.stops.zip loads)).length = route.stops.length := by
    rw [length_futureMaxLoads, List.length_zip, length, Nat.min_self]
  have past : (pastMisses 0 0 misses).length = route.stops.length + 1 := by
    rw [length_pastMisses, many]
  have future : (futureMisses (route.endMiss v) misses).length = route.stops.length + 1 := by
    rw [length_futureMisses, many]
  refine ⟨v, loads, misses, driven, derived, missed, rfl, ?_, fun i inside => ?_, rfl, rfl⟩
  · rw [Route.endMiss] at future
    simp [length, highest, past, future]
  · -- Every list that the entries of the stops are made of is long enough.
    have within {β : Type} (xs : List β) (long : i < xs.length) : ∃ x, xs[i]? = some x :=
      ⟨_, List.getElem?_eq_getElem long⟩
    obtain ⟨load, loaded⟩ := within loads (length ▸ inside)
    obtain ⟨most, high⟩ := within _ (highest ▸ inside)
    obtain ⟨before, waited⟩ := within (pastMisses 0 0 misses) (by omega)
    obtain ⟨after, waits⟩ : ∃ after, (futureMisses (route.endMiss v) misses)[i + 1]? = some after :=
      ⟨_, List.getElem?_eq_getElem (by omega)⟩
    refine ⟨load, most, before, after, loaded, high, waited, waits, ?_⟩
    rw [Route.endMiss] at waits
    simp only [List.zip, List.getElem?_zipWith, loaded, waited, List.getElem?_drop, Nat.add_comm 1 i]
    rw [← List.zip, high, waits]

/-- An entry that is derived from a route agrees with its stops. -/
theorem RouteEntry.derive_agrees (done : RouteEntry.derive p pool route = .ok e) :
    e.Agrees p pool route.stops := by
  obtain ⟨v, loads, misses, made⟩ := derive_eq_ok done
  obtain ⟨trips, _⟩ := tripsFrom_eq_ok [] made.derived
  refine ⟨trips, ?_, fun before job after split => ?_⟩
  · rw [made.count_eq]
    rfl
  · have derived := made.derived
    rw [split] at derived
    have inside : before.length < route.stops.length := by simp [split]
    obtain ⟨load, _, _, _, here, _, _, _, entered⟩ := made.stop_at before.length inside
    rw [entered, Option.map_some, ← here]
    exact tripsFrom_load [] derived

end

/-! ### The ledger of a plan -/

namespace Plan

/-- Whether the ledger agrees with a route. -/
def Agrees (p : Problem α) (plan : Plan α) (r : Nat) : Prop :=
  ∀ stops, plan.Visits r stops → (plan.ledger.entry r).Agrees p plan.pool stops

/-- A refresh of a route makes the ledger agree with it and leaves the rest of the ledger alone. -/
theorem refreshRoute_agrees {p : Problem α} {plan after : Plan α} {r : Nat}
    (done : plan.refreshRoute p r = .ok after) :
    after.Agrees p r ∧ ∀ other, r ≠ other → after.ledger.entry other = plan.ledger.entry other := by
  obtain ⟨route, fresh, entry, found, rescheduled, derived, rfl⟩ := refreshRoute_eq_ok done
  constructor
  · rintro stops ⟨vehicle, visits⟩
    obtain ⟨same, here, _, rfl⟩ := itineraries_eq_some.mp visits
    rw [routes_setRoute_self found] at here
    cases here
    have agrees := RouteEntry.derive_agrees derived
    rw [Ledger.entry_modifyEntry_self]
    exact ⟨agrees.trips_eq, agrees.count_eq, agrees.load_at⟩
  · intro other apart
    exact Ledger.entry_modifyEntry_of_ne _ apart _

/-- A refresh of a route keeps what the ledger agrees with. -/
theorem Agrees.refreshRoute {p : Problem α} {plan after : Plan α} {r other : Nat}
    (agrees : plan.Agrees p other) (done : plan.refreshRoute p r = .ok after) :
    after.Agrees p other := by
  obtain ⟨own, others⟩ := refreshRoute_agrees done
  by_cases same : r = other
  · exact same ▸ own
  · obtain ⟨itineraries, pool, _⟩ := refreshRoute_keeps done
    intro stops visits
    rw [others other same, pool]
    rw [Visits, itineraries] at visits
    exact agrees stops visits

theorem refreshRoutes_agrees {p : Problem α} {plan after : Plan α}
    (done : plan.refreshRoutes p = .ok after) (r : Nat) : after.Agrees p r := by
  suffices along : ∀ (routes : List Nat) (plan : Plan α), (plan.Agrees p r ∨ r ∈ routes) →
      routes.foldlM (Plan.refreshRoute p) plan = .ok after → after.Agrees p r by
    refine along plan.routeIds plan ?_ done
    by_cases inside : r < plan.routes.length
    · exact .inr (List.mem_range.mpr inside)
    · refine .inl fun stops ⟨vehicle, found⟩ => ?_
      have outside : plan.itineraries[r]? = none :=
        List.getElem?_eq_none (by simpa [itineraries] using inside)
      rw [outside] at found
      cases found
  intro routes
  induction routes with
  | nil =>
      intro plan agrees done
      cases done
      simpa using agrees
  | cons other routes inductionHypothesis =>
      intro plan agrees done
      rw [List.foldlM_cons, bind_eq_ok] at done
      rcases done with ⟨next, head, tail⟩
      refine inductionHypothesis next ?_ tail
      rcases agrees with already | member
      · exact .inl (already.refreshRoute head)
      · rcases List.mem_cons.mp member with rfl | later
        · exact .inl (refreshRoute_agrees head).1
        · exact .inr later

end Plan

/-! ### Reading the ledger -/

section

variable {p : Problem α} {plan : Plan α} {r : Nat} {stops : List Stop}

theorem Plan.Agrees.tripCount_eq (agrees : plan.Agrees p r) (visits : plan.Visits r stops) :
    plan.ledger.tripCount r = basesIn stops := (agrees stops visits).count_eq

/-- A closed trip has an entry with the demands of its jobs and the location of its base. -/
theorem Plan.Agrees.trip_eq (agrees : plan.Agrees p r) (visits : plan.Visits r stops)
    {k : Nat} {t : Trip} (found : (closedTrips stops)[k]? = some t) :
    plan.ledger.trip r k = ⟨some (p.demandOf t.jobs), plan.pool.locationOf t.base⟩ := by
  rw [Ledger.trip, (agrees stops visits).trips_eq, getElem?_tripEntries found]
  rfl

/-- What is entered behind the closed trips has no location, and the jobs that no base closed. -/
theorem Plan.Agrees.trip_beyond (agrees : plan.Agrees p r) (visits : plan.Visits r stops)
    {k : Nat} (beyond : basesIn stops ≤ k) :
    (plan.ledger.trip r k).unloadLocation = none ∧
      plan.ledger.load r k = p.demandOf (jobsOfTrip stops k) := by
  rw [Ledger.load, Ledger.load?, Ledger.trip, (agrees stops visits).trips_eq, tripEntries,
    ← closedTrips, ← openJobs, jobsOfTrip, List.getElem?_append_right (by simpa using beyond),
    List.getElem?_append_right (by simpa using beyond)]
  simp only [List.length_map, length_closedTrips]
  cases k - basesIn stops with
  | zero =>
      by_cases idle : openJobs stops = []
      · simp [idle, TripEntry.unknown]
      · simp [idle]
  | succ i =>
      by_cases idle : openJobs stops = []
      · simp [idle, TripEntry.unknown]
      · simp [idle, TripEntry.unknown]

/-- The load in the ledger is that of the jobs of the trip. -/
theorem Plan.Agrees.load_eq (agrees : plan.Agrees p r) (visits : plan.Visits r stops)
    (trip : Nat) : plan.ledger.load r trip = p.demandOf (jobsOfTrip stops trip) := by
  cases found : (closedTrips stops)[trip]? with
  | none =>
      have beyond := List.getElem?_eq_none_iff.mp found
      exact (agrees.trip_beyond visits (by simpa using beyond)).2
  | some t =>
      rw [Ledger.load, Ledger.load?, agrees.trip_eq visits found, jobsOfTrip_closed found]
      rfl

/-- The location in the ledger is that of the base that closes the trip. -/
theorem Plan.Agrees.unloadLocation_eq (agrees : plan.Agrees p r) (visits : plan.Visits r stops)
    (trip : Nat) : plan.ledger.unloadLocation? r trip = plan.pool.placeOf stops trip := by
  rw [BasePool.placeOf]
  cases found : (closedTrips stops)[trip]? with
  | none =>
      have beyond := List.getElem?_eq_none_iff.mp found
      exact (agrees.trip_beyond visits (by simpa using beyond)).1
  | some t =>
      rw [Ledger.unloadLocation?, agrees.trip_eq visits found]
      rfl

/-- Trips unload only where some base lies. -/
theorem Plan.Agrees.base_of_unloadLocation (agrees : plan.Agrees p r)
    (visits : plan.Visits r stops) {trip location : Nat}
    (unloads : plan.ledger.unloadLocation? r trip = some location) :
    ∃ b, .base b ∈ stops ∧ plan.pool.locationOf b = some location := by
  rw [agrees.unloadLocation_eq visits] at unloads
  obtain ⟨closed, listed, there⟩ := Option.bind_eq_some_iff.mp unloads
  exact ⟨closed.base, (stops_of_mem_closedTrips (List.mem_of_getElem? listed)).1, there⟩

end

end Haulage

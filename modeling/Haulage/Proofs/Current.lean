/-
Module: Haulage.Proofs.Current
Purpose: Routes that are up to date.  Times and ledger follow from the stops of a route and from
  its bases, so a refresh of a route that is up to date changes nothing, and the times at a stop
  follow from what comes before it.
Main exports: Route.Departs, Plan.Current, Plan.current_refreshRoute, Plan.Current.refreshRoute,
  Plan.Current.split, Plan.Current.visit_eq, Plan.SameRoute
-/
import Haulage.Proofs.Changes

namespace Haulage

variable {α : Type} [Quantity α]

/-! ### What times and ledger follow from -/

section

variable {p : Problem α} {pool other : BasePool} {stops : List Stop}

omit [Quantity α] in
theorem Problem.stopLocation_congr {stop : Stop}
    (same : ∀ b, stop = .base b → other.base b = pool.base b) :
    p.stopLocation other stop = p.stopLocation pool stop := by
  cases stop with
  | destination job => rfl
  | base b => rw [Problem.stopLocation, Problem.stopLocation, same b rfl]

omit [Quantity α] in
theorem stopLocation_destination {job : Nat} {place : Option Nat} :
    p.stopLocation pool (.destination job) = .ok place ↔
      ∃ d, p.destination job = .ok d ∧ place = some d.location := by
  simp only [Problem.stopLocation, bind_eq_ok, Except.ok.injEq]
  constructor
  · rintro ⟨d, served, rfl⟩
    exact ⟨d, served, rfl⟩
  · rintro ⟨d, served, rfl⟩
    exact ⟨d, served, rfl⟩

omit [Quantity α] in
theorem stopLocation_of_locationOf {b location : Nat} (lies : pool.locationOf b = some location) :
    p.stopLocation pool (.base b) = .ok (some location) := by
  simp only [BasePool.locationOf, Option.bind_eq_some_iff] at lies
  rcases lies with ⟨e, found, there⟩
  simp [Problem.stopLocation, BasePool.base, found, there, bind, Except.bind]

omit [Quantity α] in
theorem Problem.endOfStop_congr {stop : Stop} {arrival : Instant}
    (same : ∀ b, stop = .base b → other.base b = pool.base b) :
    p.endOfStop other stop arrival = p.endOfStop pool stop arrival := by
  cases stop with
  | destination job => rfl
  | base b => simp only [Problem.endOfStop, same b rfl]

/-- The times at stops follow from the bases among them. -/
theorem Route.visitsFrom_congr {v : Vehicle α} {place : Option Nat} {departure : Instant}
    (same : ∀ b, .base b ∈ stops → other.base b = pool.base b) :
    Route.visitsFrom p other v place departure stops =
      Route.visitsFrom p pool v place departure stops := by
  induction stops generalizing place departure with
  | nil => rfl
  | cons stop rest inductionHypothesis =>
      have here : ∀ b, stop = .base b → other.base b = pool.base b := fun b equal =>
        same b (equal ▸ List.mem_cons_self)
      have later : ∀ b, .base b ∈ rest → other.base b = pool.base b := fun b member =>
        same b (List.mem_cons_of_mem stop member)
      simp only [Route.visitsFrom, Problem.stopLocation_congr here, Problem.endOfStop_congr here,
        inductionHypothesis later]

/-- Where there are times at stops, it is known where the stops are. -/
theorem Route.stopLocation_of_visitsFrom {v : Vehicle α} {place : Option Nat} {departure : Instant}
    {visited : List Visit × Option Nat × Instant} {stop : Stop}
    (done : Route.visitsFrom p pool v place departure stops = .ok visited) (member : stop ∈ stops) :
    ∃ here, p.stopLocation pool stop = .ok here := by
  induction stops generalizing place departure visited with
  | nil => cases member
  | cons first rest inductionHypothesis =>
      simp only [Route.visitsFrom, bind_eq_ok] at done
      rcases done with ⟨here, found, _, _, _, _, _, _, _, later, _⟩
      rcases List.mem_cons.mp member with rfl | among
      · exact ⟨here, found⟩
      · exact inductionHypothesis later among

theorem Route.reschedule_congr {route : Route}
    (same : ∀ b, .base b ∈ route.stops → other.base b = pool.base b) :
    route.reschedule p other = route.reschedule p pool := by
  simp only [Route.reschedule, Route.visitsFrom_congr same]

theorem tripsFrom_congr {load : Load α} {served : Bool}
    (same : ∀ b, .base b ∈ stops → other.base b = pool.base b) :
    tripsFrom p other load served stops = tripsFrom p pool load served stops := by
  induction stops generalizing load served with
  | nil => rfl
  | cons stop rest inductionHypothesis =>
      have later : ∀ b, .base b ∈ rest → other.base b = pool.base b := fun b member =>
        same b (List.mem_cons_of_mem stop member)
      cases stop with
      | destination job => simp only [tripsFrom, inductionHypothesis later]
      | base b => simp only [tripsFrom, same b List.mem_cons_self, inductionHypothesis later]

theorem RouteEntry.derive_congr {route : Route}
    (same : ∀ b, .base b ∈ route.stops → other.base b = pool.base b) :
    RouteEntry.derive p other route = RouteEntry.derive p pool route := by
  simp only [RouteEntry.derive, tripsFrom_congr same]

/-- Times do not follow from earlier times. -/
theorem Route.reschedule_again {route fresh : Route}
    (done : route.reschedule p pool = .ok fresh) :
    fresh.fixedDeparture = route.fixedDeparture ∧ fresh.reschedule p pool = .ok fresh := by
  simp only [Route.reschedule, bind_eq_ok] at done
  rcases done with ⟨v, driven, departure, sets, ⟨visits, place, leaving⟩, visited, arrival, ends,
    equal⟩
  cases equal
  refine ⟨rfl, ?_⟩
  simp only [Route.reschedule, bind_eq_ok]
  exact ⟨v, driven, departure, sets, (visits, place, leaving), visited, arrival, ends, rfl⟩

end

/-! ### The first stops of a route -/

/-- The first stops of a route are reached and left at some times, the last one from a certain place. -/
structure Route.Departs (p : Problem α) (pool : BasePool) (route : Route) (front : List Stop)
    (v : Vehicle α) (visits : List Visit) (here : Option Nat) (leaving : Instant) : Prop where
  driven : p.vehicle route.vehicle = .ok v
  visited : ∃ departure, route.departure p = .ok departure ∧
    Route.visitsFrom p pool v v.depot departure front = .ok (visits, here, leaving)

section

variable {p : Problem α} {pool other : BasePool} {route now : Route} {front : List Stop}
  {v : Vehicle α} {visits : List Visit} {here : Option Nat} {leaving : Instant}

theorem Route.Departs.length_eq (departs : route.Departs p pool front v visits here leaving) :
    visits.length = front.length := by
  rcases departs.visited with ⟨departure, _, visited⟩
  exact length_visitsFrom visited

/-- They follow from the vehicle, its departure and the bases among the stops. -/
theorem Route.Departs.congr (departs : route.Departs p pool front v visits here leaving)
    (vehicle : now.vehicle = route.vehicle) (departure : now.fixedDeparture = route.fixedDeparture)
    (same : ∀ b, .base b ∈ front → other.base b = pool.base b) :
    now.Departs p other front v visits here leaving := by
  rcases departs with ⟨driven, start, sets, visited⟩
  refine ⟨vehicle ▸ driven, start, ?_, ?_⟩
  · rw [Route.departure, vehicle, departure]
    exact sets
  · rw [Route.visitsFrom_congr same]
    exact visited

theorem Route.Departs.unique {v' : Vehicle α} {visits' : List Visit} {here' : Option Nat}
    {leaving' : Instant} (departs : route.Departs p pool front v visits here leaving)
    (again : route.Departs p pool front v' visits' here' leaving') :
    v = v' ∧ visits = visits' ∧ here = here' ∧ leaving = leaving' := by
  rcases departs with ⟨driven, start, sets, visited⟩
  rcases again with ⟨drivenAgain, startAgain, setsAgain, visitedAgain⟩
  cases driven.symm.trans drivenAgain
  cases sets.symm.trans setsAgain
  cases visited.symm.trans visitedAgain
  exact ⟨rfl, rfl, rfl, rfl⟩

/-- A route with current times, read in two parts.  The times at its last stops and at its end follow
from where and when the stops before them are left. -/
theorem Route.departs_of_times (times : route.reschedule p pool = .ok route) {back : List Stop}
    (whole : route.stops = front ++ back) :
    ∃ v early here leaving late place left,
      route.Departs p pool front v early here leaving ∧
      Route.visitsFrom p pool v here leaving back = .ok (late, place, left) ∧
      p.arrival v place v.endLocation left = .ok route.endArrival ∧
      route.visits = early ++ late := by
  simp only [Route.reschedule, bind_eq_ok] at times
  rcases times with ⟨v, driven, departure, sets, ⟨visits, place, left⟩, visited, arrival, ends, equal⟩
  rw [whole] at visited
  obtain ⟨early, here, leaving, late, head, tail, rfl⟩ := Route.visitsFrom_append.mp visited
  refine ⟨v, early, here, leaving, late, place, left, ⟨driven, departure, sets, head⟩, tail, ?_, ?_⟩
  · rw [← Except.ok.inj equal]
    exact ends
  · rw [← Except.ok.inj equal]

/-- It is known where the stops of such a route are. -/
theorem Route.stopLocation_of_times {stop : Stop} (times : route.reschedule p pool = .ok route)
    (member : stop ∈ route.stops) : ∃ here, p.stopLocation pool stop = .ok here := by
  simp only [Route.reschedule, bind_eq_ok] at times
  obtain ⟨_, _, _, _, visited, done, _⟩ := times
  exact Route.stopLocation_of_visitsFrom done member

/-- Behind a job the vehicle is where the job is, and leaves when the visit ends. -/
theorem Route.Departs.behind_job {job : Nat}
    (departs : route.Departs p pool (front ++ [.destination job]) v visits here leaving) :
    ∃ d visit, p.destination job = .ok d ∧ here = some d.location ∧
      visits[front.length]? = some visit ∧ visit.departure = leaving := by
  rcases departs.visited with ⟨departure, _, visited⟩
  obtain ⟨early, middle, _, late, head, tail, rfl⟩ := Route.visitsFrom_append.mp visited
  simp only [Route.visitsFrom, Problem.stopLocation, bind_eq_ok] at tail
  rcases tail with ⟨_, ⟨d, served, lies⟩, arrival, _, leaving, _, waiting, _, _, last, equal⟩
  cases lies
  cases last
  cases equal
  refine ⟨d, ⟨arrival, leaving, waiting⟩, served, rfl, ?_, rfl⟩
  rw [← length_visitsFrom head, List.getElem?_append_right (Nat.le_refl _), Nat.sub_self]
  rfl

end

omit [Quantity α] in
/-- A ledger is known by its entries. -/
theorem Ledger.eq_of_entries {ledger other : Ledger α}
    (length : ledger.routes.length = other.routes.length)
    (same : ∀ r, ledger.entry r = other.entry r) : ledger = other := by
  rcases ledger with ⟨entries⟩
  rcases other with ⟨others⟩
  have equal : entries = others := by
    apply List.ext_getElem length
    intro r inside insideOther
    have entry := same r
    rwa [Ledger.entry, Ledger.entry, List.getElem?_eq_getElem inside,
      List.getElem?_eq_getElem insideOther] at entry
  rw [equal]

omit [Quantity α] in
/-- An entry of the book that a change leaves alone. -/
theorem Ledger.modifyEntry_eq_self {ledger : Ledger α} {r : Nat} {f : RouteEntry α → RouteEntry α}
    (entered : r < ledger.routes.length) (same : f (ledger.entry r) = ledger.entry r) :
    ledger.modifyEntry r f = ledger := by
  rcases ledger with ⟨entries⟩
  have inside : r < entries.length := entered
  have here : entries[r]? = some entries[r] := List.getElem?_eq_getElem inside
  simp only [Ledger.entry, here, Option.getD_some] at same
  have long : r + 1 - entries.length = 0 := by omega
  simp only [Ledger.modifyEntry, List.rightpad, long, List.replicate_zero, List.append_nil,
    Ledger.mk.injEq]
  apply List.ext_getElem?
  intro i
  rw [List.getElem?_modify]
  by_cases own : r = i
  · subst own
    simp [here, same]
  · simp [own]

namespace Plan

/-! ### Routes that are up to date -/

/-- The times of a route and what the ledger holds about it follow from its stops. -/
structure Current (p : Problem α) (plan : Plan α) (r : Nat) (route : Route) : Prop where
  found : plan.routes[r]? = some route
  times : route.reschedule p plan.pool = .ok route
  entered : r < plan.ledger.routes.length
  derived : ∃ entry, RouteEntry.derive p plan.pool route = .ok entry ∧
    { entry with needsBase := (plan.ledger.entry r).needsBase } = plan.ledger.entry r

section

variable {p : Problem α} {plan next other : Plan α} {r : Nat} {route now : Route}

/-- The problem has the vehicle of a route that is up to date. -/
theorem Current.drives (current : plan.Current p r route) : route.vehicle < p.vehicles.size := by
  have times := current.times
  simp only [Route.reschedule, bind_eq_ok] at times
  obtain ⟨v, driven, _⟩ := times
  exact (Array.getElem?_eq_some_iff.mp (orOutOfTable_eq_ok.mp driven)).1

/-- It is known where the stops of such a route are. -/
theorem Current.stopLocation {stop : Stop} (current : plan.Current p r route)
    (member : stop ∈ route.stops) : ∃ here, p.stopLocation plan.pool stop = .ok here :=
  Route.stopLocation_of_times current.times member

/-- A refresh leaves the stops as they were and brings the rest up to date. -/
theorem current_refreshRoute (found : plan.routes[r]? = some route)
    (done : plan.refreshRoute p r = .ok next) :
    ∃ fresh, next.Current p r fresh ∧ fresh.vehicle = route.vehicle ∧
      fresh.fixedDeparture = route.fixedDeparture ∧ fresh.stops = route.stops := by
  obtain ⟨same, fresh, entry, foundAgain, rescheduled, derived, rfl⟩ := refreshRoute_eq_ok done
  rw [found] at foundAgain
  cases foundAgain
  obtain ⟨vehicle, stops⟩ := Route.reschedule_eq_ok rescheduled
  obtain ⟨departure, again⟩ := Route.reschedule_again rescheduled
  refine ⟨fresh, ⟨routes_setRoute_self found, again, ?_, entry, derived, ?_⟩, vehicle, departure,
    stops⟩
  · simp only [Ledger.modifyEntry, List.rightpad, List.length_modify, List.length_append,
      List.length_replicate]
    omega
  · simp only [Ledger.entry_modifyEntry_self]

/-- A refresh of a route that is up to date changes nothing. -/
theorem Current.refreshRoute (current : plan.Current p r route) :
    plan.refreshRoute p r = .ok plan := by
  obtain ⟨entry, derived, same⟩ := current.derived
  simp only [Plan.refreshRoute, Ledger.refresh, bind_eq_ok, route_eq_ok]
  refine ⟨route, current.found, route, current.times, _, ⟨entry, derived, rfl⟩, ?_⟩
  rw [setRoute_self current.found, Ledger.modifyEntry_eq_self current.entered same]

/-- The ledger agrees with a route that is up to date. -/
theorem Current.agrees (current : plan.Current p r route) : plan.Agrees p r := by
  intro stops ⟨vehicle, visits⟩
  obtain ⟨same, found, _, rfl⟩ := itineraries_eq_some.mp visits
  cases current.found.symm.trans found
  obtain ⟨entry, derived, equal⟩ := current.derived
  have agrees := RouteEntry.derive_agrees derived
  rw [← equal]
  exact ⟨agrees.trips_eq, agrees.count_eq, agrees.load_at⟩

/-- Two plans agree on a route, on its bases, and on what the ledger holds about it. -/
structure SameRoute (r : Nat) (plan other : Plan α) : Prop where
  route_eq : other.routes[r]? = plan.routes[r]?
  bases : ∀ stops b, plan.Visits r stops → .base b ∈ stops → other.pool.base b = plan.pool.base b
  entry_eq : other.ledger.entry r = plan.ledger.entry r
  enters : plan.ledger.routes.length ≤ other.ledger.routes.length

omit [Quantity α] in
theorem SameRoute.refl (r : Nat) (plan : Plan α) : SameRoute r plan plan :=
  ⟨rfl, fun _ _ _ _ => rfl, rfl, Nat.le_refl _⟩

omit [Quantity α] in
theorem SameRoute.trans {last : Plan α} (first : SameRoute r plan next)
    (second : SameRoute r next last) : SameRoute r plan last := by
  refine ⟨second.route_eq.trans first.route_eq, fun stops b visits member => ?_,
    second.entry_eq.trans first.entry_eq, first.enters.trans second.enters⟩
  have visitsNow : next.Visits r stops := by
    rwa [Visits, itineraries, List.getElem?_map, first.route_eq, ← List.getElem?_map, ← itineraries]
  exact (second.bases stops b visitsNow member).trans (first.bases stops b visits member)

omit [Quantity α] in
theorem ChangesAt.sameRoute {i : Nat} (changes : ChangesAt r plan next) (apart : r ≠ i) :
    SameRoute i plan next :=
  ⟨changes.routes i apart, fun stops b visits => changes.bases i stops b apart visits,
    changes.entries i apart, changes.enters⟩

theorem Current.congr (current : plan.Current p r route) (same : SameRoute r plan other) :
    other.Current p r route := by
  have bases : ∀ b, .base b ∈ route.stops → other.pool.base b = plan.pool.base b := fun b =>
    same.bases route.stops b (visits_of_route current.found)
  refine ⟨same.route_eq.trans current.found, ?_, current.entered.trans_le same.enters, ?_⟩
  · rw [Route.reschedule_congr bases]
    exact current.times
  · rw [RouteEntry.derive_congr bases, same.entry_eq]
    exact current.derived

/-- A route that is up to date, read in two parts. -/
theorem Current.split (current : plan.Current p r route) {front back : List Stop}
    (whole : route.stops = front ++ back) :
    ∃ v early here leaving late place left,
      route.Departs p plan.pool front v early here leaving ∧
      Route.visitsFrom p plan.pool v here leaving back = .ok (late, place, left) ∧
      p.arrival v place v.endLocation left = .ok route.endArrival ∧
      route.visits = early ++ late :=
  Route.departs_of_times current.times whole

/-- Where two routes begin with the same stops, and these stops with the same bases, they are
reached and left at the same times. -/
theorem Current.visit_eq (current : plan.Current p r route) (again : other.Current p r now)
    (vehicle : now.vehicle = route.vehicle) (departure : now.fixedDeparture = route.fixedDeparture)
    {front back backNow : List Stop} (split : route.stops = front ++ back)
    (splitNow : now.stops = front ++ backNow)
    (same : ∀ b, .base b ∈ front → other.pool.base b = plan.pool.base b) {i : Nat}
    (inside : i < front.length) : now.visits[i]? = route.visits[i]? := by
  obtain ⟨v, early, here, leaving, late, _, _, departs, _, _, visits⟩ := current.split split
  obtain ⟨v', early', _, _, late', _, _, departsNow, _, _, visitsNow⟩ := again.split splitNow
  obtain ⟨rfl, rfl, rfl, rfl⟩ := (departs.congr vehicle departure same).unique departsNow
  have short : i < early.length := departs.length_eq ▸ inside
  rw [visits, visitsNow, List.getElem?_append_left short, List.getElem?_append_left short]

end

end Plan

end Haulage

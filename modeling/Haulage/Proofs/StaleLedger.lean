/-
Module: Haulage.Proofs.StaleLedger
Purpose: What a ledger that is out of date changes about a base that is put into a route.  The route
  itself is refreshed first; of all others only what they unload is read, and that as the ledger has
  it.
Main exports: Volumes.unloadingsOn, Plan.SameAt, Plan.SameUpTo, Fill.insertBase_sameUpTo,
  insertBase_asRefreshed, insertBase_stale_twoSides
-/
import Haulage.Proofs.Undone
import Haulage.Proofs.UnfailingSessions

namespace Haulage

variable {α : Type} [Quantity α]

open Attempt Plan Problem

/-! ### What is read of the other routes -/

namespace Volumes

omit [Quantity α]

/-- Where the closed trips of one route unload and with which load, by the ledger. -/
def unloadingsOn (ledger : Ledger α) (r : Nat) : List (Nat × Load α) :=
  (List.range (ledger.tripCount r)).filterMap fun trip =>
    match ledger.unloadLocation? r trip, ledger.load? r trip with
    | some location, some load => some (location, load)
    | _, _ => none

theorem unloadings_eq_flatten (plan : Plan α) :
    unloadings plan = (plan.routeIds.map (unloadingsOn plan.ledger)).flatten := rfl

variable {ledger other : Ledger α} {r : Nat}

/-- They are read from the trips that are entered. -/
theorem unloadingsOn_congr (trips : (other.entry r).trips = (ledger.entry r).trips)
    (count : other.tripCount r = ledger.tripCount r) :
    unloadingsOn other r = unloadingsOn ledger r := by
  simp only [unloadingsOn, Ledger.unloadLocation?, Ledger.load?, Ledger.trip, trips, count]

end Volumes

/-- Where two plans have the same stops and bases on a route, and the ledger agrees with both, the
route unloads the same. -/
theorem Volumes.unloadingsOn_eq {p : Problem α} {plan next : Plan α} {r : Nat} {stops : List Stop}
    (agrees : plan.Agrees p r) (agreesNext : next.Agrees p r) (visits : plan.Visits r stops)
    (visitsNext : next.Visits r stops) (pool : next.pool = plan.pool) :
    unloadingsOn next.ledger r = unloadingsOn plan.ledger r := by
  have before := agrees stops visits
  have now := agreesNext stops visitsNext
  apply unloadingsOn_congr
  · rw [before.trips_eq, now.trips_eq, pool]
  · exact now.count_eq.trans before.count_eq.symm

/-! ### What a refresh of a route finds out -/

namespace Plan

/-- The times of a route, and what the ledger is to hold about it. -/
def derived (p : Problem α) (plan : Plan α) (r : Nat) : Except Failure (Route × RouteEntry α) := do
  let fresh ← (← plan.route r).reschedule p plan.pool
  .ok (fresh, ← RouteEntry.derive p plan.pool fresh)

omit [Quantity α] in
/-- Enters what was found out about a route. -/
def entering (plan : Plan α) (r : Nat) (found : Route × RouteEntry α) : Plan α :=
  { plan.setRoute r found.1 with
    ledger := plan.ledger.modifyEntry r fun old => { found.2 with needsBase := old.needsBase } }

/-- A refresh of a route enters what follows from the route. -/
theorem refreshRoute_eq_derived (p : Problem α) (plan : Plan α) (r : Nat) :
    plan.refreshRoute p r = (plan.derived p r).map (plan.entering r) := by
  simp only [Plan.refreshRoute, derived, Ledger.refresh, exceptMap_bind]
  cases plan.route r with
  | error e => rfl
  | ok route =>
      cases here : route.reschedule p plan.pool with
      | error e => simp [here, bind, Except.bind]
      | ok fresh =>
          cases entered : RouteEntry.derive p plan.pool fresh with
          | error e => simp [here, entered, bind, Except.bind]
          | ok entry => simp [here, entered, bind, Except.bind, Except.map, entering]

end Plan

/-! ### Plans that are the same to a base -/

/-- A route without its times: its vehicle, its departure and its stops. -/
def Route.course (route : Route) : Nat × Option Instant × List Stop :=
  (route.vehicle, route.fixedDeparture, route.stops)

/-- Two plans that a refresh of a route makes the same to a base.  They differ in times and in what the
ledger holds; but of all other routes, the ledger has them unload the same. -/
structure Plan.SameUpTo (r : Nat) (plan other : Plan α) : Prop where
  size_eq : other.routes.length = plan.routes.length
  course_eq : other.routes[r]?.map Route.course = plan.routes[r]?.map Route.course
  pool_eq : other.pool = plan.pool
  unloads : ∀ i < plan.routes.length, i ≠ r →
    Volumes.unloadingsOn other.ledger i = Volumes.unloadingsOn plan.ledger i

/-- Two plans that are the same to a base for a route, as to the times there and what the ledger holds
about its trips and stops too. -/
structure Plan.SameAt (r : Nat) (plan other : Plan α) : Prop extends plan.SameUpTo r other where
  route_eq : other.routes[r]? = plan.routes[r]?
  trips_eq : (other.ledger.entry r).trips = (plan.ledger.entry r).trips
  count_eq : other.ledger.tripCount r = plan.ledger.tripCount r
  stops_eq : (other.ledger.entry r).stops = (plan.ledger.entry r).stops

section

variable {p : Problem α} {plan other : Plan α} {r : Nat}

/-- Of both the same is found out about the route. -/
theorem Plan.SameUpTo.derived_eq (same : plan.SameUpTo r other) :
    other.derived p r = plan.derived p r := by
  have course := same.course_eq
  simp only [Plan.derived, Plan.route, same.pool_eq]
  cases here : plan.routes[r]? with
  | none =>
      rw [here, Option.map_none, Option.map_eq_none_iff] at course
      rw [course]
  | some route =>
      rw [here, Option.map_some, Option.map_eq_some_iff] at course
      obtain ⟨now, there, equal⟩ := course
      simp only [Route.course, Prod.mk.injEq] at equal
      have fresh : now.reschedule p plan.pool = route.reschedule p plan.pool :=
        Route.reschedule_eq_of_same equal.1 equal.2.1 equal.2.2
      simp only [there, orOutOfTable, bind, Except.bind, fresh]

omit [Quantity α] in
/-- What is found out about the route makes two plans the same to a base. -/
theorem Plan.SameUpTo.entering (same : plan.SameUpTo r other) (found : Route × RouteEntry α) :
    (plan.entering r found).SameAt r (other.entering r found) := by
  have own (before : Plan α) : (before.entering r found).ledger.entry r =
      { found.2 with needsBase := (before.ledger.entry r).needsBase } :=
    Ledger.entry_modifyEntry_self _ _ _
  have route_eq : (other.entering r found).routes[r]? = (plan.entering r found).routes[r]? := by
    by_cases inside : r < plan.routes.length
    · simp [Plan.entering, Plan.setRoute, same.size_eq, inside]
    · simp [Plan.entering, Plan.setRoute, same.size_eq, inside]
  refine ⟨⟨?_, congrArg _ route_eq, same.pool_eq, fun i inside apart => ?_⟩, route_eq, ?_, ?_, ?_⟩
  · simpa [Plan.entering] using same.size_eq
  · have kept (before : Plan α) : Volumes.unloadingsOn (before.entering r found).ledger i =
        Volumes.unloadingsOn before.ledger i := by
      have entry_eq : (before.entering r found).ledger.entry i = before.ledger.entry i :=
        Ledger.entry_modifyEntry_of_ne _ (Ne.symm apart) _
      exact Volumes.unloadingsOn_congr (by rw [entry_eq])
        (by rw [Ledger.tripCount, Ledger.tripCount?, entry_eq]; rfl)
    rw [kept, kept]
    exact same.unloads i (by simpa [Plan.entering] using inside) apart
  · rw [own, own]
  · rw [Ledger.tripCount, Ledger.tripCount?, Ledger.tripCount, Ledger.tripCount?, own, own]
  · rw [own, own]

namespace Plan.SameAt

omit [Quantity α] in
/-- Either way the route unloads the same, as the others do. -/
theorem unloadings_eq (same : plan.SameAt r other) :
    Volumes.unloadings other = Volumes.unloadings plan := by
  rw [Volumes.unloadings_eq_flatten, Volumes.unloadings_eq_flatten, routeIds, routeIds,
    same.size_eq]
  refine congrArg List.flatten (List.map_congr_left fun i member => ?_)
  by_cases own : i = r
  · subst own
    exact Volumes.unloadingsOn_congr same.trips_eq same.count_eq
  · exact same.unloads i (List.mem_range.mp member) own

/-- Counted anew, the volumes are the same. -/
theorem rebuild_eq (same : plan.SameAt r other) :
    (Volumes.rebuild other : Attempt (Volumes α) Unit) = Volumes.rebuild plan := by
  rw [Volumes.rebuild, Volumes.rebuild, same.unloadings_eq]

/-- A base finds the same place. -/
theorem firstPlace_eq (same : plan.SameAt r other) (settings : Settings α) (volumes : Volumes α)
    (b vehicle : Nat) (departure : Instant) :
    (settings.survey p other volumes true).firstPlace r b vehicle departure =
      (settings.survey p plan volumes true).firstPlace r b vehicle departure := by
  have stop_eq (position : Nat) : other.ledger.stop? r position = plan.ledger.stop? r position := by
    rw [Ledger.stop?, Ledger.stop?, same.stops_eq]
  have places_eq (trip : Nat) :
      other.ledger.unloadLocation? r trip = plan.ledger.unloadLocation? r trip := by
    simp only [Ledger.unloadLocation?, Ledger.trip, same.trips_eq]
  have counts_eq : locationCounts other.ledger r = locationCounts plan.ledger r := by
    simp only [locationCounts, same.count_eq, funext places_eq]
  have looks_eq (v : Vehicle α) (route : Route) (counts : List LocationCount) :
      (settings.survey p other volumes true).lookForBase ⟨r, vehicle, v, departure, .base b⟩ route b
          counts =
        (settings.survey p plan volumes true).lookForBase ⟨r, vehicle, v, departure, .base b⟩ route
          b counts := by
    funext found gap
    simp only [Survey.lookForBase, Survey.loadBefore, Settings.survey, stop_eq]
    rfl
  have plan_eq (before : Plan α) : (settings.survey p before volumes true).plan = before := rfl
  simp only [Survey.firstPlace, looks_eq, plan_eq, Plan.route, same.pool_eq, same.route_eq, counts_eq]
  rfl

end Plan.SameAt

end

/-! ### Putting in a base -/

omit [Quantity α] in
/-- The plan in which a base was put into a route, at a location. -/
def Plan.closing (plan : Plan α) (r : Nat) (route : Route) (position b location : Nat)
    (duration : Duration) : Plan α :=
  { plan.setRoute r { route with stops := route.stops.insertIdx position (.base b) } with
    pool := (plan.pool.without b).placed b location duration }

section

variable {p : Problem α} {settings : Settings α} {plan other : Plan α} {volumes : Volumes α}
  {q : Proposal} {route : Route} {position b location : Nat} {duration : Duration}

omit [Quantity α] in
/-- A free base can be put anywhere in a route. -/
theorem Plan.closing_answers {r : Nat} (found : plan.routes[r]? = some route)
    (inside : position ≤ route.stops.length) (free : plan.pool.isFree b = true) :
    ∃ inserted, plan.insertStop r position (.base b) = .ok inserted ∧
      inserted.placeBase b location duration =
        .ok (plan.closing r route position b location duration) := by
  have known : b < (plan.pool.without b).size := by
    rw [BasePool.size_without]
    obtain ⟨e, listed, _⟩ := BasePool.isFree_eq_true.mp free
    exact (List.getElem?_eq_some_iff.mp listed).1
  exact ⟨_, insertStop_base.mpr ⟨route, found, inside, free, rfl⟩,
    placeBase_eq_ok.mpr ⟨known, rfl⟩⟩

/-- Once a base can be put into a route, it is put there, the route is refreshed, and the volumes are
counted. -/
theorem Fill.commit_closing
    (changes_eq : q.changes = [.insert q.route position (.base b), .place b location duration])
    (found : plan.routes[q.route]? = some route) (inside : position ≤ route.stops.length)
    (free : plan.pool.isFree b = true) :
    Fill.commit p q ⟨plan, volumes⟩ = (do
      let next ← Attempt.ofResult
        ((plan.closing q.route route position b location duration).refreshRoute p q.route)
      set (⟨next, volumes⟩ : Work α)
      Work.onVolumes (Volumes.rebuild next))
        ⟨plan.closing q.route route position b location duration, volumes⟩ := by
  have checks : q.check plan = .ok () := by
    have available : Proposal.isAvailable plan (.base b) = true := free
    rw [Proposal.check, changes_eq, checkChanges_insert found inside available]
    rfl
  have changed : makeChanges q.changes plan =
      .ok () (plan.closing q.route route position b location duration) := by
    obtain ⟨inserted, inserts, places⟩ := Plan.closing_answers found inside free
    rw [changes_eq, makeChanges_cons_answers]
    refine ⟨inserted, inserts, ?_⟩
    rw [makeChanges_cons_answers]
    exact ⟨_, places, makeChanges_nil_answers.mpr rfl⟩
  have applied : Work.onPlan q.apply ⟨plan, volumes⟩ =
      .ok () ⟨plan.closing q.route route position b location duration, volumes⟩ :=
    within_answers.mpr ⟨_, changed, rfl⟩
  have opens : q.opensTrip = true := by
    simp [Proposal.opensTrip, changes_eq, Change.placesBase]
  rw [Fill.commit, get_bind, ofResult_bind_of_ok checks, bind_of_answers applied, get_bind, opens]
  rfl

/-- On plans that are the same to a base, it is put into the route alike. -/
theorem Plan.SameAt.commit_eq (same : plan.SameAt q.route other)
    (changes_eq : q.changes = [.insert q.route position (.base b), .place b location duration])
    (found : plan.routes[q.route]? = some route) (inside : position ≤ route.stops.length)
    (free : plan.pool.isFree b = true) :
    answer (Fill.commit p q ⟨other, volumes⟩) = answer (Fill.commit p q ⟨plan, volumes⟩) := by
  have upTo : (plan.closing q.route route position b location duration).SameUpTo q.route
      (other.closing q.route route position b location duration) := by
    refine ⟨?_, ?_, ?_, fun i inside apart => ?_⟩
    · simpa [Plan.closing] using same.size_eq
    · exact congrArg _ ((routes_setRoute_self (same.route_eq.trans found)).trans
        (routes_setRoute_self found).symm)
    · simp only [Plan.closing, same.pool_eq]
    · exact same.unloads i (by simpa [Plan.closing] using inside) apart
  rw [Fill.commit_closing changes_eq (same.route_eq.trans found) inside (same.pool_eq ▸ free),
    Fill.commit_closing changes_eq found inside free, refreshRoute_eq_derived,
    refreshRoute_eq_derived, upTo.derived_eq]
  cases (plan.closing q.route route position b location duration).derived p q.route with
  | error e => rfl
  | ok derived =>
      have now := upTo.entering derived
      rw [Except.map, Except.map, ofResult_bind_of_ok rfl, ofResult_bind_of_ok rfl, set_bind,
        set_bind, now.rebuild_eq]
      show answer (Work.onVolumes _ _) = answer (Work.onVolumes _ _)
      rw [Work.onVolumes, answer_within, answer_within]

/-- What is done to put a base into a route, once pool and route are refreshed. -/
def Fill.placeLowest (p : Problem α) (settings : Settings α) (r : Nat) (plan : Plan α) :
    Attempt (Fill α) (Option Proposal) := do
  onWork (Work.onVolumes (Volumes.rebuild plan))
  let volumes := (← get).work.volumes
  match plan.pool.lowestFree? with
  | none => throw (.refused .poolExhausted)
  | some base => do
    let route ← Attempt.ofResult (plan.route r)
    let departure ← Attempt.ofResult (route.departure p)
    let found ← Attempt.ofResult
      ((settings.survey p plan volumes true).firstPlace r base route.vehicle departure)
    match found with
    | none => return none
    | some proposal => do
      onWork (commit p proposal)
      return some proposal

theorem Fill.insertBase_eq (r : Nat) : Fill.insertBase p settings r = (do
    updatePlan (·.refreshBases)
    updatePlan (·.refreshRoute p r)
    placeLowest p settings r (← get).work.plan) := rfl

/-- On plans that are the same to a base, the lowest free one is put into the route at the same place,
or not at all. -/
theorem Plan.SameAt.placeLowest_eq {r : Nat} (same : plan.SameAt r other) :
    answer (Fill.placeLowest p settings r other (.start p other)) =
      answer (Fill.placeLowest p settings r plan (.start p plan)) := by
  rw [Fill.placeLowest, Fill.placeLowest, same.rebuild_eq, same.pool_eq]
  cases counted : (Volumes.rebuild plan) (.ofSites p.sites) with
  | error e volumes =>
      have fails (before : Plan α) : Fill.onWork (Work.onVolumes (Volumes.rebuild plan))
          (.start p before) = .error e ⟨⟨before, volumes⟩, true, []⟩ := by
        simp only [Fill.onWork, Work.onVolumes, Attempt.within, Fill.start, counted]
      rw [bind_of_fails (fails other), bind_of_fails (fails plan)]
      rfl
  | ok done volumes =>
      have answers (before : Plan α) : Fill.onWork (Work.onVolumes (Volumes.rebuild plan))
          (.start p before) = .ok () ⟨⟨before, volumes⟩, true, []⟩ := by
        simp only [Fill.onWork, Work.onVolumes, Attempt.within, Fill.start, counted]
      rw [bind_of_answers (answers other), bind_of_answers (answers plan), get_bind, get_bind]
      cases lowest : plan.pool.lowestFree? with
      | none => rfl
      | some b =>
          have route_eq : other.route r = plan.route r := by
            rw [Plan.route, Plan.route, same.route_eq]
          simp only [route_eq, same.firstPlace_eq]
          refine answer_ofResult_bind fun route found => answer_ofResult_bind fun departure _ =>
            answer_ofResult_bind fun offered place => ?_
          cases offered with
          | none => rfl
          | some q =>
              obtain ⟨rfl, job, location, duration, front, back, load, splits⟩ :=
                Survey.firstPlace_splits (route_eq_ok.mp found) rfl place
              have inside : front.length + 1 ≤ route.stops.length := by
                rw [splits.stops_eq, List.length_append, List.length_cons]
                omega
              rw [answer_bind_pure, answer_bind_pure, Fill.onWork, answer_within, answer_within]
              refine congrArg _ (same.commit_eq splits.changes_eq (route_eq_ok.mp found) inside ?_)
              exact BasePool.isFree_of_lowestFree? lowest

/-- Where a refresh of its pool makes two plans the same to a base, the base is put into both at the
same place, or into neither, for the same reason. -/
theorem Fill.insertBase_sameUpTo {pooled fresh : Plan α} {r : Nat}
    (bases : plan.refreshBases = .ok pooled) (basesNow : other.refreshBases = .ok fresh)
    (same : pooled.SameUpTo r fresh) :
    answer (Fill.insertBase p settings r (.start p other)) =
      answer (Fill.insertBase p settings r (.start p plan)) := by
  simp only [Fill.insertBase_eq, Fill.updatePlan, Fill.start, bind_assoc, get_bind]
  rw [ofResult_bind_of_ok basesNow, ofResult_bind_of_ok bases, set_bind, set_bind, get_bind,
    get_bind, refreshRoute_eq_derived, refreshRoute_eq_derived, same.derived_eq]
  cases pooled.derived p r with
  | error e => rfl
  | ok derived => exact (same.entering derived).placeLowest_eq

end

/-! ### Before and after a refresh -/

section

variable {p : Problem α} {plan next : Plan α} {r : Nat}

/-- A refresh of a route changes times alone. -/
theorem course_refreshRoute (done : plan.refreshRoute p r = .ok next) :
    next.routes.map Route.course = plan.routes.map Route.course := by
  obtain ⟨route, fresh, _, found, times, _, rfl⟩ := refreshRoute_eq_ok done
  obtain ⟨vehicle, stops⟩ := Route.reschedule_eq_ok times
  have course : fresh.course = route.course := by
    rw [Route.course, Route.course, vehicle, stops, (Route.reschedule_again times).1]
  apply List.ext_getElem?
  intro i
  by_cases own : r = i
  · subst own
    rw [List.getElem?_map, List.getElem?_map, routes_setRoute_self found, found, Option.map_some,
      Option.map_some, course]
  · rw [List.getElem?_map, List.getElem?_map, routes_setRoute_of_ne own]

/-- A refresh of all routes changes nothing about a base where the other routes unload what the ledger
said before. -/
theorem sameUpTo_refreshRoutes (done : plan.refreshRoutes p = .ok next)
    (told : ∀ i < plan.routes.length, i ≠ r →
      Volumes.unloadingsOn next.ledger i = Volumes.unloadingsOn plan.ledger i) :
    plan.SameUpTo r next := by
  have courses := foldlM_keeps
    (fun other => other.routes.map Route.course = plan.routes.map Route.course)
    (fun _ _ _ _ same step => (course_refreshRoute step).trans same) rfl done
  refine ⟨?_, ?_, (refreshRoutes_keeps done).2.1, told⟩
  · simpa using congrArg List.length courses
  · simpa using congrArg (·[r]?) courses

/-- Where the ledger agrees with a route, a refresh of all routes does not change what it says the
route unloads. -/
theorem unloadingsOn_refreshRoutes {i : Nat} (done : plan.refreshRoutes p = .ok next)
    (inside : i < plan.routes.length) (agrees : plan.Agrees p i) :
    Volumes.unloadingsOn next.ledger i = Volumes.unloadingsOn plan.ledger i := by
  obtain ⟨itineraries, pool, _⟩ := refreshRoutes_keeps done
  have visits := visits_of_mem_routeIds (List.mem_range.mpr inside)
  refine Volumes.unloadingsOn_eq agrees (refreshRoutes_agrees done i) visits ?_ pool
  rwa [Visits, itineraries]

/-- A base is put into a route as if all routes had been refreshed before, where that would not change
what the other routes unload. -/
theorem Fill.insertBase_of_told (settings : Settings α) (done : plan.refreshRoutes p = .ok next)
    (told : ∀ i < plan.routes.length, i ≠ r →
      Volumes.unloadingsOn next.ledger i = Volumes.unloadingsOn plan.ledger i) :
    answer (Fill.insertBase p settings r (.start p next)) =
      answer (Fill.insertBase p settings r (.start p plan)) := by
  obtain ⟨pooled, fresh, bases, routes, basesNow, _⟩ := refreshBases_of_refreshRoutes done
  refine insertBase_sameUpTo bases basesNow (sameUpTo_refreshRoutes routes ?_)
  simp only [Plan.refreshBases, bind_eq_ok] at bases basesNow
  obtain ⟨pool, _, equal⟩ := bases
  obtain ⟨poolNow, _, equalNow⟩ := basesNow
  cases equal
  cases equalNow
  exact told

end

/-- A base is put into a route at the same place, or refused for the same reason, whether all routes
are refreshed before or not: where of every other route the ledger agrees with the stops, or says it
unloads what it will be said to unload after a refresh; and so after any history of passes, bases,
joint removals and resets. -/
theorem insertBase_asRefreshed {parts : ProblemParts α} {p : Problem α}
    (built : parts.build = .ok p) {plan next : Plan α} (refreshed : plan.refreshRoutes p = .ok next)
    (settings : Settings α) (r : Nat) :
    ((∀ i < plan.routes.length, i ≠ r → plan.Agrees p i ∨
        Volumes.unloadingsOn next.ledger i = Volumes.unloadingsOn plan.ledger i) →
      answer (Fill.insertBase p settings r (.start p next)) =
        answer (Fill.insertBase p settings r (.start p plan))) ∧
    ∀ operations : List (Operation α), (∀ operation ∈ operations, operation.IsValid p) →
      Plan.reach p operations = .ok plan →
      answer (Fill.insertBase p settings r (.start p next)) =
        answer (Fill.insertBase p settings r (.start p plan)) := by
  constructor
  · intro told
    refine Fill.insertBase_of_told settings refreshed fun i inside apart => ?_
    rcases told i inside apart with agrees | same
    · exact unloadingsOn_refreshRoutes refreshed inside agrees
    · exact same
  · intro operations valid reached
    obtain ⟨start, begins, done⟩ := reach_eq_ok.mp reached
    have stands := session_stands (ProblemParts.linked_of_build built) valid begins
    rw [Ends, done] at stands
    exact Fill.insertBase_of_told settings refreshed fun i inside _ =>
      unloadingsOn_refreshRoutes refreshed inside (stands.agrees i)

/-- Two vehicles come from either side to one site, which takes 22 a day.  Each carries ten, the first
one job of ten, and the second two jobs of five. -/
def twoSides : Problem Rat where
  points := #[⟨0, 0⟩, ⟨1, 0⟩, ⟨2, 0⟩, ⟨3, 0⟩, ⟨4, 0⟩, ⟨5, 0⟩, ⟨6, 0⟩]
  destinations := #[⟨"a", 1, ⟨[10]⟩, .zero, .always⟩, ⟨"b", 5, ⟨[5]⟩, .zero, .always⟩,
    ⟨"c", 4, ⟨[5]⟩, .zero, .always⟩]
  vehicles := #[⟨"v", 0, none, ⟨[10]⟩, none, some 0, false, none, none⟩,
    ⟨"w", 0, none, ⟨[10]⟩, none, some 6, false, none, none⟩]
  profiles :=
    let rows : List (List Rat) := (List.range 7).map fun i =>
      (List.range 7).map fun j => Quantity.ofInt (max i j - min i j : Nat)
    #[⟨"p", .ofRows rows rows none⟩]
  sites := [⟨3, some ⟨[22]⟩⟩]
  depotCosts := #[3, 3, 3, 3, 3, 3, 3]
  longestLeg := 4

theorem build_twoSides : twoSides.parts.build = .ok twoSides :=
  twoSides.build_parts (by decide +kernel) (by decide +kernel) (by decide +kernel)

/-- When the first route is emptied, the second trip is split as it is after a refresh. -/
theorem insertBase_asRefreshed_twoSides :
    let settings := Settings.forProblem twoSides .standard
    let operations : List (Operation Rat) := [.recreate settings, .resetRoute 0]
    (∀ operation ∈ operations, operation.IsValid twoSides) ∧
      ∃ plan next, Plan.reach twoSides operations = .ok plan ∧
        plan.refreshRoutes twoSides = .ok next ∧
        plan.itineraries = [(0, []), (1, [.destination 1, .destination 2, .base 1])] ∧
        (∀ i < plan.routes.length, i ≠ 1 →
          Volumes.unloadingsOn next.ledger i = Volumes.unloadingsOn plan.ledger i) ∧
        answer (Fill.insertBase twoSides settings 1 (.start twoSides next)) =
          answer (Fill.insertBase twoSides settings 1 (.start twoSides plan)) ∧
        answer (Fill.insertBase twoSides settings 1 (.start twoSides plan)) =
          .ok (some ⟨1, 1, 0, 1, ⟨0⟩, [.insert 1 1 (.base 0), .place 0 3 .zero]⟩) := by
  intro settings operations
  have valid : ∀ operation ∈ operations, operation.IsValid twoSides := by
    intro operation member
    simp only [operations, List.mem_cons, List.not_mem_nil, or_false] at member
    rcases member with rfl | rfl
    · exact reliable_forProblem twoSides .standard
    · show 0 < twoSides.vehicles.size
      decide
  have run : (Plan.reach twoSides operations >>= fun plan =>
      plan.refreshRoutes twoSides >>= fun next =>
      answer (Fill.insertBase twoSides settings 1 (.start twoSides next)) >>= fun found =>
      .ok (decide (plan.itineraries = [(0, []), (1, [.destination 1, .destination 2, .base 1])] ∧
        Volumes.unloadingsOn next.ledger 0 = Volumes.unloadingsOn plan.ledger 0 ∧
        found = some ⟨1, 1, 0, 1, ⟨0⟩, [.insert 1 1 (.base 0), .place 0 3 .zero]⟩))) =
      .ok true := by decide +kernel
  simp only [bind_eq_ok, Except.ok.injEq, decide_eq_true_eq] at run
  obtain ⟨plan, reached, next, refreshed, found, answers, itineraries, told, rfl⟩ := run
  have others : ∀ i < plan.routes.length, i ≠ 1 →
      Volumes.unloadingsOn next.ledger i = Volumes.unloadingsOn plan.ledger i := by
    have size : plan.routes.length = 2 := by
      simpa [Plan.itineraries] using congrArg List.length itineraries
    intro i inside apart
    obtain rfl : i = 0 := by omega
    exact told
  obtain ⟨whereTold, whereValid⟩ := insertBase_asRefreshed build_twoSides refreshed settings 1
  refine ⟨valid, plan, next, reached, refreshed, itineraries, others,
    whereTold fun i inside apart => .inr (others i inside apart), ?_⟩
  rw [← whereValid operations valid reached, answers]

/-- When the job of the first route is removed, the ledger still has its trip unload ten.  With them
the site has no room for half of the other trip, which is then not split; after a refresh it is. -/
theorem insertBase_stale_twoSides :
    let settings := Settings.forProblem twoSides .standard
    ∃ plan next, Plan.reach twoSides [.recreate settings, .removeJob 0] = .ok plan ∧
      plan.refreshRoutes twoSides = .ok next ∧
      plan.itineraries = [(0, [.base 0]), (1, [.destination 1, .destination 2, .base 1])] ∧
      answer (Fill.insertBase twoSides settings 1 (.start twoSides plan)) = .ok none ∧
      answer (Fill.insertBase twoSides settings 1 (.start twoSides next)) =
        .ok (some ⟨1, 1, 0, 1, ⟨0⟩, [.insert 1 1 (.base 2), .place 2 3 .zero]⟩) := by
  intro settings
  have run : (Plan.reach twoSides [.recreate settings, .removeJob 0] >>= fun plan =>
      plan.refreshRoutes twoSides >>= fun next =>
      answer (Fill.insertBase twoSides settings 1 (.start twoSides plan)) >>= fun found =>
      answer (Fill.insertBase twoSides settings 1 (.start twoSides next)) >>= fun foundLater =>
      .ok (decide (plan.itineraries =
          [(0, [.base 0]), (1, [.destination 1, .destination 2, .base 1])] ∧
        found = none ∧
        foundLater = some ⟨1, 1, 0, 1, ⟨0⟩, [.insert 1 1 (.base 2), .place 2 3 .zero]⟩))) =
      .ok true := by decide +kernel
  simp only [bind_eq_ok, Except.ok.injEq, decide_eq_true_eq] at run
  obtain ⟨plan, reached, next, refreshed, found, answers, foundLater, answersLater, itineraries, rfl,
    rfl⟩ := run
  exact ⟨plan, next, reached, refreshed, itineraries, answers, answersLater⟩

end Haulage

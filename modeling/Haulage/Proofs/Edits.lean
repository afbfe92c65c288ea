/-
Module: Haulage.Proofs.Edits
Purpose: What an edit of a plan does when it is possible.  Later proofs read an edit from here and
  do not open it.
Main exports: Plan.itineraries, Plan.insertStop_itineraries, Plan.refreshRoute_eq_ok,
  Plan.removeStop_eq_ok
-/
import Haulage.Pass.Removal
import Haulage.Proofs.Attempt
import Mathlib.Tactic.SplitIfs

namespace Haulage

variable {α : Type} [Quantity α]

/-! ### The pool -/

namespace BasePool

/-- The pool without a base that was taken out. -/
def without (pool : BasePool) (b : Nat) : BasePool :=
  pool.modifyEntry b fun e => { e with isFree := false }

theorem take?_eq_some {pool after : BasePool} {b : Nat} :
    pool.take? b = some after ↔ pool.isFree b = true ∧ after = pool.without b := by
  simp only [take?, without]
  by_cases free : pool.isFree b = true
  · simp [free, eq_comm]
  · simp [free]

theorem isFree_eq_true {pool : BasePool} {b : Nat} :
    pool.isFree b = true ↔ ∃ e, pool.entries[b]? = some e ∧ e.isFree = true := by
  simp only [isFree]
  cases pool.entries[b]? with
  | none => simp
  | some e => simp

theorem isFree_without {pool : BasePool} {b c : Nat} :
    (pool.without b).isFree c = if b = c then false else pool.isFree c := by
  rw [without, isFree_modifyEntry]
  cases pool.entries[c]? with
  | none => simp
  | some e => simp

@[simp] theorem size_without (pool : BasePool) (b : Nat) : (pool.without b).size = pool.size :=
  size_modifyEntry _ _ _

/-- The pool to which a base was handed back. -/
def handedBack (pool : BasePool) (b : Nat) : BasePool :=
  pool.modifyEntry b fun e => ⟨e.base.clear, true⟩

theorem release_eq_ok {pool after : BasePool} {b : Nat} {wasOut : Bool}
    (taken : pool.isFree b = false) :
    pool.release b = .ok (wasOut, after) ↔
      b < pool.size ∧ wasOut = true ∧ after = pool.handedBack b := by
  simp only [release, taken, handedBack]
  by_cases inside : b < pool.size
  · simp [inside, eq_comm]
  · simp [inside]

theorem isFree_handedBack {pool : BasePool} {b c : Nat} (inside : b < pool.size) :
    (pool.handedBack b).isFree c = if b = c then true else pool.isFree c := by
  rw [handedBack, isFree_modifyEntry]
  split
  · rename_i same
    subst same
    have found : pool.entries[b]? = some pool.entries[b] := List.getElem?_eq_getElem inside
    simp [found]
  · rfl

@[simp] theorem size_handedBack (pool : BasePool) (b : Nat) :
    (pool.handedBack b).size = pool.size := size_modifyEntry _ _ _

/-- The pool in which a base was put at a location. -/
def placed (pool : BasePool) (b location : Nat) (duration : Duration) : BasePool :=
  pool.modifyEntry b fun e => { e with base := e.base.place location duration }

theorem place_eq_ok {pool after : BasePool} {b location : Nat} {duration : Duration} :
    pool.place b location duration = .ok after ↔
      b < pool.size ∧ after = pool.placed b location duration := by
  simp only [place, placed]
  by_cases inside : b < pool.size
  · simp [inside, eq_comm]
  · simp [inside]

@[simp] theorem isFree_placed (pool : BasePool) (b location : Nat) (duration : Duration)
    (c : Nat) : (pool.placed b location duration).isFree c = pool.isFree c := by
  rw [placed, isFree_modifyEntry]
  split
  · rfl
  · rfl

@[simp] theorem size_placed (pool : BasePool) (b location : Nat) (duration : Duration) :
    (pool.placed b location duration).size = pool.size := size_modifyEntry _ _ _

end BasePool

/-! ### Routes -/

namespace Plan

/-- The vehicle of every route with the stops that it visits. -/
def itineraries (plan : Plan α) : List (Nat × List Stop) :=
  plan.routes.map fun r => (r.vehicle, r.stops)

/-- Whether a route visits the given stops. -/
def Visits (plan : Plan α) (r : Nat) (stops : List Stop) : Prop :=
  ∃ vehicle, plan.itineraries[r]? = some (vehicle, stops)

omit [Quantity α] in
theorem Visits.unique {plan : Plan α} {r : Nat} {stops others : List Stop}
    (visits : plan.Visits r stops) (again : plan.Visits r others) : stops = others := by
  rcases visits with ⟨_, found⟩
  rcases again with ⟨_, there⟩
  cases found.symm.trans there
  rfl

omit [Quantity α] in
theorem route_eq_ok {plan : Plan α} {r : Nat} {route : Route} :
    plan.route r = .ok route ↔ plan.routes[r]? = some route := orOutOfTable_eq_ok

omit [Quantity α] in
theorem routes_setRoute_self {plan : Plan α} {r : Nat} {route new : Route}
    (found : plan.routes[r]? = some route) : (plan.setRoute r new).routes[r]? = some new := by
  obtain ⟨inside, _⟩ := List.getElem?_eq_some_iff.mp found
  simp [setRoute, inside]

omit [Quantity α] in
theorem routes_setRoute_of_ne {plan : Plan α} {r other : Nat} {new : Route} (ne : r ≠ other) :
    (plan.setRoute r new).routes[other]? = plan.routes[other]? := by
  simp [setRoute, List.getElem?_set_ne ne]

omit [Quantity α] in
@[simp] theorem length_setRoute (plan : Plan α) (r : Nat) (new : Route) :
    (plan.setRoute r new).routes.length = plan.routes.length := by simp [setRoute]

omit [Quantity α] in
@[simp] theorem pool_setRoute (plan : Plan α) (r : Nat) (new : Route) :
    (plan.setRoute r new).pool = plan.pool := rfl

omit [Quantity α] in
@[simp] theorem ledger_setRoute (plan : Plan α) (r : Nat) (new : Route) :
    (plan.setRoute r new).ledger = plan.ledger := rfl

omit [Quantity α] in
@[simp] theorem unassigned_setRoute (plan : Plan α) (r : Nat) (new : Route) :
    (plan.setRoute r new).unassigned = plan.unassigned := rfl

omit [Quantity α] in
theorem setRoute_self {plan : Plan α} {r : Nat} {route : Route}
    (found : plan.routes[r]? = some route) : plan.setRoute r route = plan := by
  obtain ⟨inside, rfl⟩ := List.getElem?_eq_some_iff.mp found
  rw [setRoute, List.set_getElem_self]

omit [Quantity α] in
theorem setRoute_setRoute (plan : Plan α) (r : Nat) (first second : Route) :
    (plan.setRoute r first).setRoute r second = plan.setRoute r second := by
  simp [setRoute]

omit [Quantity α] in
theorem itineraries_setRoute (plan : Plan α) (r : Nat) (new : Route) :
    (plan.setRoute r new).itineraries = plan.itineraries.set r (new.vehicle, new.stops) := by
  simp [itineraries, setRoute, List.map_set]

omit [Quantity α] in
theorem itineraries_eq_some {plan : Plan α} {r vehicle : Nat} {stops : List Stop} :
    plan.itineraries[r]? = some (vehicle, stops) ↔
      ∃ route, plan.routes[r]? = some route ∧ route.vehicle = vehicle ∧ route.stops = stops := by
  simp [itineraries]

omit [Quantity α] in
theorem itineraries_of_route {plan : Plan α} {r : Nat} {route : Route}
    (found : plan.routes[r]? = some route) :
    plan.itineraries[r]? = some (route.vehicle, route.stops) :=
  itineraries_eq_some.mpr ⟨route, found, rfl, rfl⟩

omit [Quantity α] in
theorem visits_of_route {plan : Plan α} {r : Nat} {route : Route}
    (found : plan.routes[r]? = some route) : plan.Visits r route.stops :=
  ⟨route.vehicle, itineraries_of_route found⟩

omit [Quantity α] in
theorem Visits.mem_routeIds {plan : Plan α} {r : Nat} {stops : List Stop}
    (visits : plan.Visits r stops) : r ∈ plan.routeIds := by
  rcases visits with ⟨vehicle, found⟩
  obtain ⟨inside, _⟩ := List.getElem?_eq_some_iff.mp found
  simpa [routeIds, itineraries] using inside

omit [Quantity α] in
/-- A route that keeps its vehicle and its stops. -/
theorem itineraries_setRoute_same {plan : Plan α} {r : Nat} {route new : Route}
    (found : plan.routes[r]? = some route) (vehicle : new.vehicle = route.vehicle)
    (stops : new.stops = route.stops) : (plan.setRoute r new).itineraries = plan.itineraries := by
  have here : plan.itineraries[r]? = some (route.vehicle, route.stops) :=
    itineraries_of_route found
  obtain ⟨inside, equal⟩ := List.getElem?_eq_some_iff.mp here
  rw [itineraries_setRoute, vehicle, stops, ← equal, List.set_getElem_self]

end Plan

theorem Route.reschedule_eq_ok {p : Problem α} {pool : BasePool} {route fresh : Route}
    (done : route.reschedule p pool = .ok fresh) :
    fresh.vehicle = route.vehicle ∧ fresh.stops = route.stops := by
  simp only [Route.reschedule, bind_eq_ok] at done
  rcases done with ⟨v, _, departure, _, ⟨visits, place, leaving⟩, _, arrival, _, equal⟩
  cases equal
  exact ⟨rfl, rfl⟩

namespace Plan

/-! ### Refreshing -/

/-- What a refresh of a route leaves: the stops as they were, with times and an entry of the ledger
that follow from them. -/
theorem refreshRoute_eq_ok {p : Problem α} {plan after : Plan α} {r : Nat}
    (done : plan.refreshRoute p r = .ok after) :
    ∃ route fresh entry, plan.routes[r]? = some route ∧
      route.reschedule p plan.pool = .ok fresh ∧
      RouteEntry.derive p plan.pool fresh = .ok entry ∧
      after = { plan.setRoute r fresh with
        ledger := plan.ledger.modifyEntry r
          fun old => { entry with needsBase := old.needsBase } } := by
  simp only [refreshRoute, Ledger.refresh, bind_eq_ok, route_eq_ok] at done
  rcases done with ⟨route, found, fresh, rescheduled, _, ⟨entry, derived, entered⟩, equal⟩
  cases entered
  cases equal
  exact ⟨route, fresh, entry, found, rescheduled, derived, rfl⟩

/-- A refresh of a route changes neither stops, pool nor unassigned jobs. -/
theorem refreshRoute_keeps {p : Problem α} {plan after : Plan α} {r : Nat}
    (done : plan.refreshRoute p r = .ok after) :
    after.itineraries = plan.itineraries ∧ after.pool = plan.pool ∧
      after.unassigned = plan.unassigned := by
  obtain ⟨route, fresh, entry, found, rescheduled, _, rfl⟩ := refreshRoute_eq_ok done
  obtain ⟨vehicle, stops⟩ := Route.reschedule_eq_ok rescheduled
  exact ⟨itineraries_setRoute_same found vehicle stops, rfl, rfl⟩

/-- Nor does a refresh of all routes. -/
theorem refreshRoutes_keeps {p : Problem α} {plan after : Plan α}
    (done : plan.refreshRoutes p = .ok after) :
    after.itineraries = plan.itineraries ∧ after.pool = plan.pool ∧
      after.unassigned = plan.unassigned := by
  refine foldlM_keeps (fun other => other.itineraries = plan.itineraries ∧ other.pool = plan.pool ∧
    other.unassigned = plan.unassigned) (fun _ _ before next same step => ?_) ⟨rfl, rfl, rfl⟩ done
  obtain ⟨itineraries, pool, unassigned⟩ := refreshRoute_keeps step
  exact ⟨itineraries.trans same.1, pool.trans same.2.1, unassigned.trans same.2.2⟩

theorem Visits.refreshRoute {p : Problem α} {plan after : Plan α} {r other : Nat}
    {stops : List Stop} (visits : plan.Visits r stops)
    (done : plan.refreshRoute p other = .ok after) : after.Visits r stops := by
  rw [Visits, (refreshRoute_keeps done).1]
  exact visits

/-! ### Inserting -/

omit [Quantity α] in
theorem insertStop_destination {plan after : Plan α} {r position job : Nat} :
    plan.insertStop r position (.destination job) = .ok after ↔
      ∃ route, plan.routes[r]? = some route ∧ position ≤ route.stops.length ∧
        job ∈ plan.unassigned ∧
        after = { plan.setRoute r { route with
            stops := route.stops.insertIdx position (.destination job) } with
          unassigned := plan.unassigned.erase job } := by
  simp only [insertStop, bind_eq_ok, route_eq_ok, isUnassigned, List.contains_iff_mem]
  constructor
  · rintro ⟨route, found, done⟩
    by_cases beyond : route.length < position
    · rw [if_pos beyond] at done
      cases done
    · rw [if_neg beyond] at done
      by_cases member : job ∈ plan.unassigned
      · rw [if_pos member] at done
        cases done
        exact ⟨route, found, Nat.le_of_not_lt beyond, member, rfl⟩
      · rw [if_neg member] at done
        cases done
  · rintro ⟨route, found, inside, member, rfl⟩
    refine ⟨route, found, ?_⟩
    have within : ¬ route.length < position := Nat.not_lt_of_le inside
    rw [if_neg within, if_pos member]

omit [Quantity α] in
theorem insertStop_base {plan after : Plan α} {r position b : Nat} :
    plan.insertStop r position (.base b) = .ok after ↔
      ∃ route, plan.routes[r]? = some route ∧ position ≤ route.stops.length ∧
        plan.pool.isFree b = true ∧
        after = { plan.setRoute r { route with
            stops := route.stops.insertIdx position (.base b) } with
          pool := plan.pool.without b } := by
  simp only [insertStop, bind_eq_ok, route_eq_ok]
  constructor
  · rintro ⟨route, found, done⟩
    by_cases beyond : route.length < position
    · rw [if_pos beyond] at done
      cases done
    · rw [if_neg beyond] at done
      cases taken : plan.pool.take? b with
      | none =>
          rw [taken] at done
          cases done
      | some pool =>
          rw [taken] at done
          obtain ⟨free, rfl⟩ := BasePool.take?_eq_some.mp taken
          cases done
          exact ⟨route, found, Nat.le_of_not_lt beyond, free, rfl⟩
  · rintro ⟨route, found, inside, free, rfl⟩
    refine ⟨route, found, ?_⟩
    have within : ¬ route.length < position := Nat.not_lt_of_le inside
    rw [if_neg within, BasePool.take?_eq_some.mpr ⟨free, rfl⟩]

omit [Quantity α] in
/-- An insertion changes one route, and leaves the ledger alone. -/
theorem insertStop_itineraries {plan after : Plan α} {r position : Nat} {stop : Stop}
    (done : plan.insertStop r position stop = .ok after) :
    ∃ vehicle stops, plan.itineraries[r]? = some (vehicle, stops) ∧
      after.itineraries = plan.itineraries.set r (vehicle, stops.insertIdx position stop) ∧
      after.ledger = plan.ledger := by
  cases stop with
  | destination job =>
      obtain ⟨route, found, _, _, rfl⟩ := insertStop_destination.mp done
      exact ⟨_, _, itineraries_of_route found,
        itineraries_setRoute plan r _, rfl⟩
  | base b =>
      obtain ⟨route, found, _, _, rfl⟩ := insertStop_base.mp done
      exact ⟨_, _, itineraries_of_route found,
        itineraries_setRoute plan r _, rfl⟩

/-! ### Placing -/

omit [Quantity α] in
theorem placeBase_eq_ok {plan after : Plan α} {b location : Nat} {duration : Duration} :
    plan.placeBase b location duration = .ok after ↔
      b < plan.pool.size ∧ after = { plan with pool := plan.pool.placed b location duration } := by
  simp only [placeBase, bind_eq_ok, BasePool.place_eq_ok, Except.ok.injEq]
  constructor
  · rintro ⟨_, ⟨inside, rfl⟩, rfl⟩
    exact ⟨inside, rfl⟩
  · rintro ⟨inside, rfl⟩
    exact ⟨_, ⟨inside, rfl⟩, rfl⟩

/-! ### Handing back -/

omit [Quantity α] in
/-- Handing back a stop leaves the routes and the ledger alone. -/
theorem handBack_keeps {plan after : Plan α} {stop : Stop}
    (done : plan.handBack stop = .ok after) :
    after.routes = plan.routes ∧ after.ledger = plan.ledger := by
  cases stop with
  | destination job =>
      cases done
      exact ⟨rfl, rfl⟩
  | base b =>
      simp only [handBack, bind_eq_ok] at done
      rcases done with ⟨_, _, equal⟩
      cases equal
      exact ⟨rfl, rfl⟩

omit [Quantity α] in
theorem handBackAll_keeps {plan after : Plan α} {stops : List Stop}
    (done : stops.foldlM handBack plan = .ok after) :
    after.routes = plan.routes ∧ after.ledger = plan.ledger := by
  refine foldlM_keeps (fun q : Plan α => q.routes = plan.routes ∧ q.ledger = plan.ledger) ?_
    ⟨rfl, rfl⟩ done
  intro stop _ s t kept handed
  obtain ⟨routes, ledger⟩ := handBack_keeps handed
  exact ⟨routes.trans kept.1, ledger.trans kept.2⟩

theorem mem_addJob {job other : Nat} {jobs : List Nat} :
    other ∈ addJob job jobs ↔ other = job ∨ other ∈ jobs := by
  induction jobs with
  | nil => simp [addJob]
  | cons first rest inductionHypothesis =>
      rw [addJob]
      split_ifs with lower same
      · simp
      · subst same
        simp
      · rw [List.mem_cons, inductionHypothesis, List.mem_cons, or_left_comm]

omit [Quantity α] in
/-- The jobs among stops that were handed back are unassigned. -/
theorem mem_handBackAll {plan after : Plan α} {stops : List Stop} {job : Nat}
    (done : stops.foldlM handBack plan = .ok after) :
    job ∈ after.unassigned ↔ job ∈ plan.unassigned ∨ .destination job ∈ stops := by
  induction stops generalizing plan with
  | nil =>
      cases done
      simp
  | cons stop stops inductionHypothesis =>
      rw [List.foldlM_cons, bind_eq_ok] at done
      rcases done with ⟨next, head, tail⟩
      rw [inductionHypothesis tail, List.mem_cons]
      cases stop with
      | destination other =>
          cases head
          simp only [mem_addJob, Stop.destination.injEq]
          rw [or_comm (a := job = other), or_assoc]
      | base b =>
          simp only [handBack, bind_eq_ok] at head
          rcases head with ⟨_, _, equal⟩
          cases equal
          simp

omit [Quantity α] in
/-- Handing back does not depend on the routes. -/
theorem handBack_setRoute {plan after : Plan α} {stop : Stop} (r : Nat) (new : Route)
    (done : plan.handBack stop = .ok after) :
    (plan.setRoute r new).handBack stop = .ok (after.setRoute r new) := by
  cases stop with
  | destination job =>
      cases done
      rfl
  | base b =>
      simp only [handBack, bind_eq_ok] at done ⊢
      rcases done with ⟨released, here, equal⟩
      cases equal
      exact ⟨released, here, rfl⟩

omit [Quantity α] in
theorem handBackAll_setRoute {plan after : Plan α} {stops : List Stop} (r : Nat) (new : Route)
    (done : stops.foldlM handBack plan = .ok after) :
    stops.foldlM handBack (plan.setRoute r new) = .ok (after.setRoute r new) := by
  induction stops generalizing plan with
  | nil =>
      cases done
      rfl
  | cons stop stops inductionHypothesis =>
      rw [List.foldlM_cons, bind_eq_ok] at done ⊢
      rcases done with ⟨next, head, tail⟩
      exact ⟨next.setRoute r new, handBack_setRoute r new head, inductionHypothesis tail⟩

/-! ### Removing -/

omit [Quantity α] in
theorem removeStop_eq_ok {plan after : Plan α} {r position : Nat} {stop : Stop} :
    plan.removeStop r position = .ok (stop, after) ↔
      ∃ route, plan.routes[r]? = some route ∧ route.stops[position]? = some stop ∧
        (plan.setRoute r { route with stops := route.stops.eraseIdx position }).handBack stop =
          .ok after := by
  simp only [removeStop, bind_eq_ok, route_eq_ok, orOutOfTable_eq_ok, Except.ok.injEq,
    Prod.mk.injEq]
  constructor
  · rintro ⟨route, found, _, here, _, handed, rfl, rfl⟩
    exact ⟨route, found, here, handed⟩
  · rintro ⟨route, found, here, handed⟩
    exact ⟨route, found, stop, here, after, handed, rfl, rfl⟩

omit [Quantity α] in
theorem removeJob_eq_ok {plan after : Plan α} {job : Nat} {from? : Option Nat} :
    plan.removeJob job = .ok (from?, after) ↔
      (plan.routeOf? job = none ∧ from? = none ∧ after = plan) ∨
      ∃ r route position stop, plan.routeOf? job = some r ∧ plan.routes[r]? = some route ∧
        route.stops.idxOf? (.destination job) = some position ∧
        plan.removeStop r position = .ok (stop, after) ∧ from? = some r := by
  cases serving : plan.routeOf? job with
  | none => simp [removeJob, serving, eq_comm]
  | some r =>
      simp only [removeJob, serving, bind_eq_ok, route_eq_ok, orOutOfTable_eq_ok,
        Except.ok.injEq, Prod.mk.injEq, Option.some.injEq, reduceCtorEq, false_and, false_or]
      constructor
      · rintro ⟨route, found, position, here, ⟨stop, _⟩, removed, rfl, rfl⟩
        exact ⟨r, route, position, stop, rfl, found, here, removed, rfl⟩
      · rintro ⟨_, route, position, stop, rfl, found, here, removed, rfl⟩
        exact ⟨route, found, position, here, (stop, after), removed, rfl, rfl⟩

omit [Quantity α] in
/-- What the removal of a job keeps, the removal of several jobs keeps. -/
theorem removeJobs_keeps (I : Plan α → Prop)
    (each : ∀ plan after job from?, I plan → plan.removeJob job = .ok (from?, after) → I after)
    {given : List Nat} {removed : List (Nat × Nat)} {plan after : Plan α} (holds : I plan)
    (done : plan.removeJobs given = .ok (removed, after)) : I after := by
  induction given generalizing plan removed with
  | nil =>
      cases done
      exact holds
  | cons job given inductionHypothesis =>
      simp only [removeJobs, bind_eq_ok] at done
      rcases done with ⟨⟨from?, shorter⟩, first, ⟨others, last⟩, later, equal⟩
      have kept := each plan shorter job from? holds first
      cases from? with
      | none =>
          cases equal
          exact inductionHypothesis kept later
      | some r =>
          cases equal
          exact inductionHypothesis kept later

omit [Quantity α] in
theorem clearIdleBases_eq_ok {plan after : Plan α} {r count : Nat} :
    plan.clearIdleBases r = .ok (count, after) ↔
      ∃ route, plan.routes[r]? = some route ∧
        count = (splitIdleBases true route.stops).2.length ∧
        ((splitIdleBases true route.stops).2.map Stop.base).foldlM handBack
          (plan.setRoute r { route with stops := (splitIdleBases true route.stops).1 }) =
            .ok after := by
  simp only [clearIdleBases, bind_eq_ok, route_eq_ok, Except.ok.injEq, Prod.mk.injEq,
    List.foldlM_map]
  constructor
  · rintro ⟨route, found, _, handed, rfl, rfl⟩
    exact ⟨route, found, rfl, handed⟩
  · rintro ⟨route, found, rfl, handed⟩
    exact ⟨route, found, after, handed, rfl, rfl⟩

theorem resetRoute_eq_ok {p : Problem α} {plan after : Plan α} {r : Nat}
    (done : plan.resetRoute p r = .ok after) :
    ∃ route emptied cleared, plan.routes[r]? = some route ∧
      route.stops.foldlM handBack plan = .ok emptied ∧ cleared.vehicle = route.vehicle ∧
      cleared.stops = [] ∧
      after = { emptied.setRoute r cleared with ledger := emptied.ledger.clearRoute r } := by
  simp only [resetRoute, bind_eq_ok, route_eq_ok] at done
  rcases done with ⟨route, found, emptied, handed, cleared, rescheduled, equal⟩
  cases equal
  obtain ⟨vehicle, stops⟩ := Route.reschedule_eq_ok rescheduled
  exact ⟨route, emptied, cleared, found, handed, vehicle, stops, rfl⟩

end Plan

end Haulage

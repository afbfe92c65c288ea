/-
Module: Haulage.Proofs.AllOrNothing
Purpose: A proposal is carried out as a whole or not at all, also when the plan is no longer the one
  that it was made for.  All that may be out of date is asked before the first change, and after
  that every change is made.  Two things are only found out behind the changes: a time that cannot
  be computed, and a base of the route that lies where no volumes are tracked.
Main exports: Plan.HasRoute, Plan.HasBaseAt, Work.Countable, Proposal.Asks, Survey.Proposes.asks,
  Proposal.CarriedOut, Proposal.Fails, commit_allOrNothing
-/
import Haulage.Proofs.Realised
import Haulage.Proofs.Tracked
import Haulage.Proofs.UnfailingSessions

namespace Haulage

variable {α : Type} [Quantity α]

open Attempt Plan Problem

/-! ### Plans whose volumes can be counted -/

/-- A route of a vehicle that is known, all stops of which are known. -/
def Plan.HasRoute (p : Problem α) (plan : Plan α) (r : Nat) : Prop :=
  ∃ vehicle stops, plan.itineraries[r]? = some (vehicle, stops) ∧ vehicle < p.vehicles.size ∧
    ∀ stop ∈ stops, p.HasStop plan.pool stop

/-- A route has a base at a location. -/
def Plan.HasBaseAt (plan : Plan α) (r location : Nat) : Prop :=
  ∃ stops b, plan.Visits r stops ∧ .base b ∈ stops ∧ plan.pool.locationOf b = some location

/-- The volumes can be counted anew, and no stop is unknown.  The ledger may be out of date, and
then it may know less than the routes of where trips unload. -/
structure Work.Countable (p : Problem α) (w : Work α) : Prop where
  limits : w.volumes.clear = (Volumes.ofSites p.sites).clear
  counts : ∃ counted, Volumes.rebuild w.plan w.volumes = .ok () counted
  routes : ∀ r < w.plan.routes.length, w.plan.HasRoute p r

section

variable {p : Problem α} {bases r position : Nat} {plan next closed : Plan α} {w : Work α}

/-- The times of a route that is known can be computed, but for what is excused. -/
theorem Plan.HasRoute.yields_refreshRoute (linked : p.Linked) (known : plan.HasRoute p r) :
    p.Yields (fun _ => True) (plan.refreshRoute p r) := by
  obtain ⟨vehicle, stops, there, drives, all⟩ := known
  obtain ⟨route, found, rfl, rfl⟩ := itineraries_eq_some.mp there
  exact Plan.yields_refreshRoute linked found drives all

omit [Quantity α] in
/-- A job that the problem has may stand anywhere. -/
theorem Plan.HasRoute.insertJob {job : Nat} (known : plan.HasRoute p r)
    (has : job < p.destinations.size)
    (done : plan.insertStop r position (.destination job) = .ok next) : next.HasRoute p r := by
  obtain ⟨vehicle, stops, there, drives, all⟩ := known
  obtain ⟨_, _, again, changed, _⟩ := insertStop_itineraries done
  cases there.symm.trans again
  have inside := (List.getElem?_eq_some_iff.mp there).1
  have pool : next.pool = plan.pool := by
    obtain ⟨_, _, _, _, rfl⟩ := insertStop_destination.mp done
    rfl
  refine ⟨vehicle, _, by rw [changed, List.getElem?_set_self inside], drives, ?_⟩
  intro stop member
  rw [pool]
  rcases List.eq_or_mem_of_mem_insertIdx member with rfl | before
  · exact has
  · exact all stop before

omit [Quantity α] in
/-- A base that is put into a route, and then at a location. -/
theorem Plan.pool_of_closing {b location : Nat} {duration : Duration}
    (done : plan.insertStop r position (.base b) = .ok next)
    (put : next.placeBase b location duration = .ok closed) :
    b < plan.pool.size ∧ closed.itineraries = next.itineraries ∧
      closed.pool = (plan.pool.without b).placed b location duration := by
  obtain ⟨_, _, _, _, rfl⟩ := insertStop_base.mp done
  obtain ⟨inPool, rfl⟩ := placeBase_eq_ok.mp put
  exact ⟨by simpa using inPool, rfl, rfl⟩

omit [Quantity α] in
/-- A base may stand anywhere once it was put where the problem has a location. -/
theorem Plan.HasRoute.closes {b location : Nat} {duration : Duration} (known : plan.HasRoute p r)
    (lies : location < p.points.size) (done : plan.insertStop r position (.base b) = .ok next)
    (put : next.placeBase b location duration = .ok closed) : closed.HasRoute p r := by
  obtain ⟨vehicle, stops, there, drives, all⟩ := known
  obtain ⟨_, _, again, changed, _⟩ := insertStop_itineraries done
  cases there.symm.trans again
  have inside := (List.getElem?_eq_some_iff.mp there).1
  obtain ⟨inPool, same, pool⟩ := pool_of_closing done put
  have placed : p.HasStop closed.pool (.base b) := by
    have known : b < (plan.pool.without b).size := by simpa using inPool
    obtain ⟨base, found⟩ := BasePool.base_placed_self known
    exact ⟨_, pool ▸ found, Problem.hasPlace_some lies⟩
  refine ⟨vehicle, _, by rw [same, changed, List.getElem?_set_self inside], drives, ?_⟩
  intro stop member
  rcases List.eq_or_mem_of_mem_insertIdx member with rfl | before
  · exact placed
  · cases stop with
    | destination job => exact all _ before
    | base c =>
        by_cases own : b = c
        · exact own ▸ placed
        · obtain ⟨base, found, place⟩ := all _ before
          refine ⟨base, ?_, place⟩
          rw [pool, BasePool.placed, BasePool.base_modifyEntry_of_ne own, BasePool.base_without,
            found]

omit [Quantity α] in
/-- A job that is inserted moves no base. -/
theorem Plan.HasBaseAt.of_insertJob {job location : Nat} (has : next.HasBaseAt r location)
    (done : plan.insertStop r position (.destination job) = .ok next) :
    plan.HasBaseAt r location := by
  obtain ⟨stops, b, ⟨vehicle, there⟩, member, lies⟩ := has
  obtain ⟨_, before, old, changed, _⟩ := insertStop_itineraries done
  rw [changed, List.getElem?_set_self (List.getElem?_eq_some_iff.mp old).1] at there
  cases there
  obtain ⟨_, _, _, _, rfl⟩ := insertStop_destination.mp done
  rcases List.eq_or_mem_of_mem_insertIdx member with equal | among
  · cases equal
  · exact ⟨before, b, ⟨_, old⟩, among, lies⟩

omit [Quantity α] in
/-- A base that is put into a route lies where it was put, and no other base is moved. -/
theorem Plan.HasBaseAt.of_closing {b location place : Nat} {duration : Duration}
    (has : closed.HasBaseAt r place) (done : plan.insertStop r position (.base b) = .ok next)
    (put : next.placeBase b location duration = .ok closed) :
    place = location ∨ plan.HasBaseAt r place := by
  obtain ⟨stops, c, ⟨vehicle, there⟩, member, lies⟩ := has
  obtain ⟨_, before, old, changed, _⟩ := insertStop_itineraries done
  obtain ⟨inPool, same, pool⟩ := pool_of_closing done put
  rw [same, changed, List.getElem?_set_self (List.getElem?_eq_some_iff.mp old).1] at there
  cases there
  by_cases own : b = c
  · subst own
    rw [pool, BasePool.locationOf_placed_self (by simpa using inPool)] at lies
    cases lies
    exact .inl rfl
  · refine .inr ⟨before, c, ⟨_, old⟩, ?_, ?_⟩
    · rcases List.eq_or_mem_of_mem_insertIdx member with equal | among
      · cases equal
        exact absurd rfl own
      · exact among
    · rwa [pool, BasePool.placed, BasePool.locationOf_modifyEntry_of_ne own, BasePool.without,
        BasePool.locationOf_modifyEntry_of_ne own] at lies

theorem Plan.HasRoute.refreshRoute (known : plan.HasRoute p r)
    (done : plan.refreshRoute p r = .ok next) : next.HasRoute p r := by
  obtain ⟨itineraries, pool, _⟩ := refreshRoute_keeps done
  rw [Plan.HasRoute, itineraries, pool]
  exact known

theorem Plan.hasBaseAt_refreshRoute {i location : Nat} (done : plan.refreshRoute p r = .ok next) :
    next.HasBaseAt i location ↔ plan.HasBaseAt i location := by
  obtain ⟨itineraries, pool, _⟩ := refreshRoute_keeps done
  rw [Plan.HasBaseAt, Plan.HasBaseAt, pool]
  simp only [Plan.Visits, itineraries]

/-- In a plan in range no stop is unknown, so its volumes can be counted if the ledger has it unload
nowhere else than its bases lie. -/
theorem Plan.InRange.countable {volumes : Volumes α} (linked : p.Linked)
    (inRange : plan.InRange p bases) (limits : volumes.clear = (Volumes.ofSites p.sites).clear)
    (counts : ∃ counted, Volumes.rebuild plan volumes = .ok () counted) :
    Work.Countable p ⟨plan, volumes⟩ := by
  refine ⟨limits, counts, fun r inside => ?_⟩
  have found := List.getElem?_eq_getElem inside
  exact ⟨_, _, itineraries_of_route found, inRange.drives found, fun stop member =>
    inRange.hasStop linked (visits_of_route found) member⟩

/-- Where the ledger tells the truth, nothing more is asked for. -/
theorem Plan.Standing.countable (linked : p.Linked) (standing : plan.Standing p bases) :
    Work.Countable p ⟨plan, .ofSites p.sites⟩ := by
  refine standing.inRange.countable linked rfl ?_
  have tracked : ∀ r stops b location, plan.Visits r stops → .base b ∈ stops →
      plan.pool.locationOf b = some location →
      ((Volumes.ofSites p.sites).tracked? location).isSome = true :=
    fun _ _ b location _ _ lies =>
      Volumes.tracks_ofSites p location (standing.inRange.sited b location lies)
  obtain ⟨counted, done, _⟩ := Volumes.rebuild_answers standing.agrees tracked
  exact ⟨counted, done⟩

end

/-! ### What a proposal asks for -/

/-- A proposal asks for a job that the problem has, for such a job and a base behind it, or for a
base; and a base is to be put where volumes are tracked. -/
inductive Proposal.Asks (p : Problem α) (q : Proposal) : Prop
  | joins (job position : Nat) (known : job < p.destinations.size)
      (changes_eq : q.changes = [.insert q.route position (.destination job)])
  | opens (job position b location : Nat) (duration : Duration)
      (known : job < p.destinations.size) (tracked : p.Tracks location)
      (changes_eq : q.changes = [.insert q.route position (.destination job),
        .insert q.route (position + 1) (.base b), .place b location duration])
  | splits (position b location : Nat) (duration : Duration) (tracked : p.Tracks location)
      (changes_eq : q.changes =
        [.insert q.route position (.base b), .place b location duration])

omit [Quantity α] in
theorem Problem.lt_of_destination {p : Problem α} {job : Nat} {d : Destination α}
    (served : p.destination job = .ok d) : job < p.destinations.size :=
  (Array.getElem?_eq_some_iff.mp (orOutOfTable_eq_ok.mp served)).1

/-- What the calculators propose for a route and its vehicle asks for no more than that, whatever
plan they look at. -/
theorem Survey.Proposes.asks {s : Survey α} {r : Nat} {route : Route} {departure : Instant}
    {q : Proposal} (limits : s.volumes.clear = (Volumes.ofSites s.problem.sites).clear)
    (found : s.plan.routes[r]? = some route)
    (proposes : s.Proposes r route.vehicle departure q) : q.route = r ∧ q.Asks s.problem := by
  cases proposes with
  | @job job known offer calculated =>
      obtain ⟨_, _, d, _, foundAgain, _, served, _, _, either⟩ :=
        Survey.cheapest_eq_some calculated
      cases found.symm.trans foundAgain
      have inside := lt_of_destination served
      rcases either with ⟨bound, scanned⟩ | ⟨b, bound, lowest, opened⟩
      · obtain ⟨same, before, _, joins⟩ := Survey.scanTrips_joins rfl served scanned
        exact ⟨same, .joins job before.length inside joins.changes_eq⟩
      · obtain ⟨same, location, duration, opens⟩ := Survey.openTrip_opens rfl served lowest opened
        exact ⟨same, .opens job route.stops.length b location duration inside
          (s.problem.tracks_of_isLoadable limits opens.loadable) opens.changes_eq⟩
  | @base b _ calculated =>
      obtain ⟨same, job, location, duration, before, after, load, splits⟩ :=
        Survey.firstPlace_splits found rfl calculated
      exact ⟨same, .splits (before.length + 1) b location duration
        (s.problem.tracks_of_isLoadable limits splits.loadable) splits.changes_eq⟩

omit [Quantity α] in
/-- The job that is asked for is one of the problem. -/
theorem Proposal.Asks.job_lt {p : Problem α} {q : Proposal} {job : Nat} (asks : q.Asks p)
    (first : q.job? = some job) : job < p.destinations.size := by
  cases asks with
  | joins _ _ known changes_eq =>
      rw [Proposal.job?, changes_eq] at first
      cases first
      exact known
  | opens _ _ _ _ _ known _ changes_eq =>
      rw [Proposal.job?, changes_eq] at first
      cases first
      exact known
  | splits _ _ _ _ _ changes_eq =>
      rw [Proposal.job?, changes_eq] at first
      cases first

/-! ### What passes the checks can be done -/

section

variable {p : Problem α} {r position known : Nat} {plan next : Plan α} {q : Proposal}

omit [Quantity α] in
/-- What is checked of an insertion: the position lies in the route, and the stop is available. -/
theorem checkChanges_insert_eq_ok {stop : Stop} {rest : List Change} :
    Proposal.checkChanges plan known (.insert r position stop :: rest) = .ok () ↔
      ∃ route, plan.routes[r]? = some route ∧ position ≤ route.stops.length + known ∧
        Proposal.isAvailable plan stop = true ∧
        Proposal.checkChanges plan (known + 1) rest = .ok () := by
  simp only [Proposal.checkChanges, bind_eq_ok, route_eq_ok]
  refine exists_congr fun route => and_congr_right fun _ => ?_
  rw [Route.length]
  split_ifs with beyond available
  · simp [Nat.not_le_of_lt beyond]
  · simp [Nat.not_lt.mp beyond, available]
  · simp [available]

omit [Quantity α] in
/-- A stop that is available can be put anywhere in a route. -/
theorem insertStop_answers {stop : Stop} {route : Route} (found : plan.routes[r]? = some route)
    (inside : position ≤ route.stops.length) (available : Proposal.isAvailable plan stop = true) :
    ∃ next, plan.insertStop r position stop = .ok next := by
  cases stop with
  | destination job =>
      have waits : job ∈ plan.unassigned := List.contains_iff_mem.mp available
      exact ⟨_, insertStop_destination.mpr ⟨route, found, inside, waits, rfl⟩⟩
  | base b => exact ⟨_, insertStop_base.mpr ⟨route, found, inside, available, rfl⟩⟩

/-- A change that was made: the stop stands where it was to be put, the base lies where it was to be
placed, and the route has the vehicle and the departure that it was to have. -/
def Change.Holds (plan : Plan α) : Change → Prop
  | .insert r position stop => ∃ stops, plan.Visits r stops ∧ stops[position]? = some stop
  | .place b location duration =>
      ∃ lies : Base, plan.pool.base b = .ok (lies.place location duration)
  | .switch r vehicle departure => ∃ route, plan.routes[r]? = some route ∧
      route.vehicle = vehicle ∧ route.fixedDeparture = some departure

theorem Change.Holds.refreshRoute {change : Change} (holds : change.Holds plan)
    (done : plan.refreshRoute p r = .ok next) : change.Holds next := by
  cases change with
  | insert i position stop =>
      obtain ⟨stops, visits, stands⟩ := holds
      exact ⟨stops, visits.refreshRoute done, stands⟩
  | place b location duration =>
      obtain ⟨lies, placed⟩ := holds
      exact ⟨lies, by rw [(refreshRoute_keeps done).2.1, placed]⟩
  | switch i vehicle departure =>
      obtain ⟨route, found, rfl, fixed⟩ := holds
      by_cases same : r = i
      · subst same
        obtain ⟨fresh, current, vehicle, departs, _⟩ := current_refreshRoute found done
        exact ⟨fresh, current.found, vehicle, departs.trans fixed⟩
      · exact ⟨route, ((changesOnly_refreshRoute done).routes i same).trans found, rfl, fixed⟩

/-- All changes of a proposal were made to a plan, and none to another route.  The route is known,
and its bases lie where they did or where volumes are tracked. -/
structure Proposal.Made (p : Problem α) (q : Proposal) (plan next : Plan α) : Prop where
  makes : makeChanges q.changes plan = .ok () next
  holds : ∀ change ∈ q.changes, change.Holds next
  changes : ChangesOnly q.route plan next
  known : next.HasRoute p q.route
  bases : ∀ location, next.HasBaseAt q.route location →
    p.Tracks location ∨ plan.HasBaseAt q.route location

omit [Quantity α] in
theorem Plan.Visits.insertIdx {stop : Stop} {stops : List Stop} (visits : plan.Visits r stops)
    (done : plan.insertStop r position stop = .ok next) :
    next.Visits r (stops.insertIdx position stop) := by
  rcases visits with ⟨vehicle, there⟩
  obtain ⟨_, _, again, changed, _⟩ := insertStop_itineraries done
  cases there.symm.trans again
  exact ⟨vehicle, by rw [changed, List.getElem?_set_self (List.getElem?_eq_some_iff.mp there).1]⟩

omit [Quantity α] in
/-- A free base is put into a route, and then where the problem has a location. -/
theorem Plan.HasRoute.makesClosing {b location : Nat} {stops : List Stop}
    (known : plan.HasRoute p r) (lies : location < p.points.size) (visits : plan.Visits r stops)
    (inside : position ≤ stops.length) (free : Proposal.isAvailable plan (.base b) = true)
    (duration : Duration) :
    ∃ closed, makeChanges [.insert r position (.base b), .place b location duration] plan =
        .ok () closed ∧ ChangesOnly r plan closed ∧ closed.HasRoute p r ∧
      (∀ place, closed.HasBaseAt r place → place = location ∨ plan.HasBaseAt r place) ∧
      closed.Visits r (stops.insertIdx position (.base b)) ∧
      (Change.place b location duration).Holds closed := by
  rcases visits with ⟨vehicle, there⟩
  obtain ⟨route, found, rfl, rfl⟩ := itineraries_eq_some.mp there
  obtain ⟨next, inserted⟩ := insertStop_answers found inside free
  obtain ⟨closed, put⟩ := placeBase_answers location duration inserted
  have visitsNow := (visits_of_route found).insertIdx inserted
  have knownNow := known.closes lies inserted put
  have bases (place : Nat) (has : closed.HasBaseAt r place) := has.of_closing inserted put
  have makes : makeChanges [.insert r position (.base b), .place b location duration] plan =
      .ok () closed :=
    makeChanges_cons_answers.mpr ⟨next, inserted, makeChanges_cons_answers.mpr
      ⟨closed, put, makeChanges_nil_answers.mpr rfl⟩⟩
  have first := (ChangesAt.insertStop inserted).toChangesOnly
  obtain ⟨inPool, rfl⟩ := placeBase_eq_ok.mp put
  exact ⟨_, makes, first.trans (changesOnly_of_keeps rfl rfl), knownNow, bases, visitsNow,
    BasePool.base_placed_self inPool⟩

omit [Quantity α] in
/-- Where the checks find nothing, all changes are made. -/
theorem Proposal.Asks.makes (linked : p.Linked) (asks : q.Asks p)
    (routes : ∀ r < plan.routes.length, plan.HasRoute p r) (checks : q.check plan = .ok ()) :
    ∃ next, q.Made p plan next := by
  rw [Proposal.check] at checks
  have routeKnown {route : Route} (found : plan.routes[q.route]? = some route) :
      plan.HasRoute p q.route := routes _ (List.getElem?_eq_some_iff.mp found).1
  cases asks with
  | joins job position known changes_eq =>
      rw [changes_eq, checkChanges_insert_eq_ok] at checks
      obtain ⟨route, found, inside, available, _⟩ := checks
      obtain ⟨next, done⟩ := insertStop_answers found inside available
      refine ⟨next, ?_, ?_, (ChangesAt.insertStop done).toChangesOnly,
        (routeKnown found).insertJob known done, fun location has => .inr (has.of_insertJob done)⟩
      · rw [changes_eq]
        exact makeChanges_cons_answers.mpr ⟨next, done, makeChanges_nil_answers.mpr rfl⟩
      · intro change member
        rw [changes_eq, List.mem_singleton] at member
        subst member
        exact ⟨_, (visits_of_route found).insertIdx done,
          List.getElem?_insertIdx_self.trans (if_pos inside)⟩
  | opens job position b location duration known tracked changes_eq =>
      simp only [changes_eq, checkChanges_insert_eq_ok] at checks
      obtain ⟨route, found, inside, available, _, again, _, free, _⟩ := checks
      obtain ⟨next, done⟩ := insertStop_answers found inside available
      have visits := (visits_of_route found).insertIdx done
      have pool : next.pool = plan.pool := by
        obtain ⟨_, _, _, _, rfl⟩ := insertStop_destination.mp done
        rfl
      have freeNow : Proposal.isAvailable next (.base b) = true := by
        rw [Proposal.isAvailable, pool]
        exact free
      -- The base stands behind the job, in a route that is longer by now.
      have longer : position + 1 ≤
          (route.stops.insertIdx position (.destination job)).length := by
        rw [List.length_insertIdx_of_le_length inside]
        exact Nat.succ_le_succ inside
      obtain ⟨closed, makes, changes, knownNow, bases, visitsNow, placed⟩ :=
        ((routeKnown found).insertJob known done).makesClosing (tracked.lt_of_linked linked)
          visits longer freeNow duration
      refine ⟨closed, ?_, ?_, (ChangesAt.insertStop done).toChangesOnly.trans changes, knownNow,
        fun place has => ?_⟩
      · rw [changes_eq]
        exact makeChanges_cons_answers.mpr ⟨next, done, makes⟩
      · intro change member
        simp only [changes_eq, List.mem_cons, List.not_mem_nil, or_false] at member
        rcases member with rfl | rfl | rfl
        · refine ⟨_, visitsNow, ?_⟩
          rw [List.getElem?_insertIdx_of_lt (Nat.lt_succ_self position),
            List.getElem?_insertIdx_self]
          exact if_pos inside
        · exact ⟨_, visitsNow, List.getElem?_insertIdx_self.trans (if_pos longer)⟩
        · exact placed
      · rcases bases place has with rfl | before
        · exact .inl tracked
        · exact .inr (before.of_insertJob done)
  | splits position b location duration tracked changes_eq =>
      rw [changes_eq, checkChanges_insert_eq_ok] at checks
      obtain ⟨route, found, inside, free, _⟩ := checks
      obtain ⟨closed, makes, changes, knownNow, bases, visitsNow, placed⟩ :=
        (routeKnown found).makesClosing (tracked.lt_of_linked linked) (visits_of_route found)
          inside free duration
      refine ⟨closed, by rw [changes_eq, makes], ?_, changes, knownNow, fun place has => ?_⟩
      · intro change member
        simp only [changes_eq, List.mem_cons, List.not_mem_nil, or_false] at member
        rcases member with rfl | rfl
        · exact ⟨_, visitsNow, List.getElem?_insertIdx_self.trans (if_pos inside)⟩
        · exact placed
      · rcases bases place has with rfl | before
        · exact .inl tracked
        · exact .inr before

end

/-! ### Volumes once a proposal was carried out -/

section

variable {p : Problem α} {r : Nat} {plan next : Plan α} {q : Proposal} {w : Work α}

namespace Volumes

variable {vs last : Volumes α} {loads : List (Nat × Load α)}

/-- Where loads were added without a refusal, all locations are tracked. -/
theorem tracked_of_addAll (done : addAll loads vs = .ok () last) :
    ∀ load ∈ loads, (vs.tracked? load.1).isSome = true := by
  induction loads generalizing vs with
  | nil =>
      intro load member
      cases member
  | cons load rest inductionHypothesis =>
      have steps : ((ofResult (vs.add load.1 load.2) >>= fun counted => set counted) >>=
          fun _ => addAll rest) vs = .ok () last := done
      obtain ⟨_, _, first, later⟩ := bind_answers.mp steps
      obtain ⟨counted, _, added, put⟩ := bind_answers.mp first
      obtain ⟨added, rfl⟩ := ofResult_answers.mp added
      cases put
      intro load member
      rcases List.mem_cons.mp member with rfl | behind
      · simp only [Volumes.add, bind_eq_ok, Volumes.entry_eq_ok] at added
        obtain ⟨e, found, _⟩ := added
        rw [found]
        rfl
      · rw [← isSome_tracked?_of_clear (clear_add added)]
        exact inductionHypothesis later load behind

/-- Where volumes were counted anew, the ledger has the plan unload where volumes are tracked. -/
theorem tracked_of_rebuild (done : rebuild plan vs = .ok () last) :
    ∀ load ∈ unloadings plan, (vs.tracked? load.1).isSome = true := by
  rw [rebuild, modify_bind] at done
  intro load member
  have tracked := tracked_of_addAll done load member
  rwa [tracked?_clear, Option.isSome_map] at tracked

omit [Quantity α] in
/-- What a plan unloads after a change of one route was unloaded before, or is unloaded there. -/
theorem mem_unloadings_of_changesOnly {load : Nat × Load α} (changes : ChangesOnly r plan next)
    (member : load ∈ unloadings next) : load ∈ unloadings plan ∨
      ∃ trip, next.ledger.unloadLocation? r trip = some load.1 := by
  by_cases own : ∃ trip, next.ledger.unloadLocation? r trip = some load.1
  · exact .inr own
  · refine .inl ?_
    simp only [unloadings, List.mem_flatten, List.mem_map, changes.routeIds_eq] at member ⊢
    obtain ⟨_, ⟨i, inside, rfl⟩, among⟩ := member
    refine ⟨_, ⟨i, inside, rfl⟩, ?_⟩
    by_cases same : r = i
    · subst same
      obtain ⟨trip, _, entered⟩ := List.mem_filterMap.mp among
      split at entered
      · rename_i location weight place _
        cases entered
        exact absurd ⟨trip, place⟩ own
      · cases entered
    · simpa only [Ledger.tripCount, Ledger.tripCount?, Ledger.unloadLocation?, Ledger.load?,
        Ledger.trip, changes.entries i same] using among

end Volumes

/-- Once a proposal was carried out, the volumes are brought up to date, unless the changed route
had a base where volumes are not tracked.  On that route the ledger is as new as the stops, and of
the other routes it says what it said before. -/
theorem Work.Countable.recounts {changed : Plan α} (countable : w.Countable p) (asks : q.Asks p)
    (made : q.Made p w.plan changed) (done : changed.refreshRoute p q.route = .ok next) :
    Ends (Work.recount p q w.volumes next) (fun _ last => last.plan = next)
      (fun e last => last.plan = next ∧ ∃ location,
        e = .refused (.untrackedLocation location) ∧ ¬ p.Tracks location ∧
        w.plan.HasBaseAt q.route location) ⟨next, w.volumes⟩ := by
  have changes := made.changes.trans (changesOnly_refreshRoute done)
  obtain ⟨vehicle, stops, there, _, _⟩ := made.known.refreshRoute done
  have agrees := (refreshRoute_agrees done).1
  obtain ⟨before, counted⟩ := countable.counts
  refine (Work.recount_ends (w := ⟨next, w.volumes⟩) fun job => asks.job_lt).mono
    (fun _ _ same => same) ?_
  rintro _ _ ⟨same, location, refused, unknown, unloads⟩
  have untracked : ¬ p.Tracks location := by
    rw [Problem.Tracks, ← Volumes.isSome_tracked?_of_clear countable.limits, unknown]
    simp
  have own {trip : Nat} (place : next.ledger.unloadLocation? q.route trip = some location) :
      w.plan.HasBaseAt q.route location := by
    obtain ⟨b, member, lies⟩ := agrees.base_of_unloadLocation ⟨vehicle, there⟩ place
    have has := (hasBaseAt_refreshRoute done).mp ⟨stops, b, ⟨vehicle, there⟩, member, lies⟩
    exact (made.bases location has).resolve_left untracked
  refine ⟨same, location, refused, untracked, ?_⟩
  -- The volumes could be counted before, so it is the changed route that unloads there.
  rcases unloads with ⟨load, member, rfl⟩ | ⟨trip, place⟩
  · rcases Volumes.mem_unloadings_of_changesOnly changes member with old | ⟨trip, place⟩
    · have tracked := Volumes.tracked_of_rebuild counted load old
      rw [unknown] at tracked
      cases tracked
    · exact own place
  · exact own place

end

/-! ### All or nothing -/

/-- A proposal was applied to a plan: it passed the checks, all its changes were made, and the route
was refreshed. -/
structure Proposal.Applied (p : Problem α) (q : Proposal) (plan next : Plan α) : Prop where
  checks : q.check plan = .ok ()
  makes : ∃ changed, makeChanges q.changes plan = .ok () changed ∧
    changed.refreshRoute p q.route = .ok next
  holds : ∀ change ∈ q.changes, change.Holds next

/-- A proposal was carried out: it was applied, and the volumes were brought up to date. -/
structure Proposal.CarriedOut (p : Problem α) (q : Proposal) (w next : Work α) : Prop extends
    q.Applied p w.plan next.plan where
  counts : Work.recount p q w.volumes next.plan ⟨next.plan, w.volumes⟩ = .ok () next

/-- How a proposal is not carried out, and what that leaves behind.  Only the first way leaves
everything as it was.  The last one takes a base that the route had before, at a location of which
the ledger did not know. -/
inductive Proposal.Fails (p : Problem α) (q : Proposal) (w : Work α) : Failure → Work α → Prop
  | rejected (e : Failure) (checks : q.check w.plan = .error e) : Fails p q w e w
  | lapsed (e : Failure) (changed : Plan α) (checks : q.check w.plan = .ok ())
      (makes : makeChanges q.changes w.plan = .ok () changed)
      (fails : changed.refreshRoute p q.route = .error e) (excused : p.Excuses e) :
      Fails p q w e { w with plan := changed }
  | uncounted (location : Nat) (next : Work α) (applied : q.Applied p w.plan next.plan)
      (lies : w.plan.HasBaseAt q.route location) (untracked : ¬ p.Tracks location) :
      Fails p q w (.refused (.untrackedLocation location)) next

/-- A refusal that is not about the volumes leaves everything as it was. -/
theorem Proposal.Fails.unchanged {p : Problem α} {q : Proposal} {w next : Work α}
    {reason : Refusal} (fails : q.Fails p w (.refused reason) next)
    (other : ∀ location, reason ≠ .untrackedLocation location) : next = w := by
  generalize refused : Failure.refused reason = e at fails
  cases fails with
  | rejected => rfl
  | lapsed _ _ _ _ _ excused => exact absurd refused.symm (excused.not_refused reason)
  | uncounted location =>
      cases refused
      exact absurd rfl (other location)

/-- What was proposed for a route and its vehicle, for this plan or any other one, is carried out as
a whole, or it is rejected and leaves plan and volumes exactly as they were.  Else all of its
changes were made, and what comes after them failed: the times of the route, for what is excused,
or the volumes, if a base of the route lay where none are tracked. -/
theorem commit_allOrNothing {p : Problem α} {s : Survey α} {w : Work α} {r : Nat} {route : Route}
    {departure : Instant} {q : Proposal} (linked : p.Linked) (same : s.problem = p)
    (limits : s.volumes.clear = (Volumes.ofSites p.sites).clear)
    (found : s.plan.routes[r]? = some route) (proposes : s.Proposes r route.vehicle departure q)
    (countable : w.Countable p) :
    Ends (Fill.commit p q) (fun _ next => q.CarriedOut p w next) (q.Fails p w) w := by
  subst same
  obtain ⟨_, asks⟩ := proposes.asks limits found
  cases checks : q.check w.plan with
  | error e =>
      have refused : Fill.commit s.problem q w = .error e w := by
        show (ofResult (q.check w.plan) >>= _) w = _
        rw [checks]
        rfl
      rw [Ends, refused]
      exact .rejected e checks
  | ok _ =>
      obtain ⟨changed, made⟩ := asks.makes linked countable.routes checks
      apply Work.commit_ends
      · intro e failed
        cases checks.symm.trans failed
      · rw [Ends, made.makes]
        have refreshes := made.known.yields_refreshRoute linked
        refine ⟨fun e failed => .lapsed e changed checks made.makes failed
          (refreshes.fails e failed), fun fresh done => ?_⟩
        have holds : ∀ change ∈ q.changes, change.Holds fresh := fun change member =>
          (made.holds change member).refreshRoute done
        have applied : q.Applied s.problem w.plan fresh :=
          ⟨checks, ⟨changed, made.makes, done⟩, holds⟩
        refine ((countable.recounts asks made done).and (ends_answers _ _)).mono ?_ ?_
        · rintro _ next ⟨rfl, counts⟩
          exact ⟨applied, counts⟩
        · rintro _ next ⟨⟨rfl, location, rfl, untracked, lies⟩, _⟩
          exact .uncounted location next applied lies untracked

/-- An offer for the first job is taken up on the empty plan that it was made for.  After a pass it
is too late: the job is on a route, and nothing is changed. -/
theorem commit_allOrNothing_twoJobs :
    let settings := Settings.forProblem twoJobs .standard
    let volumes : Volumes Rat := .ofSites twoJobs.sites
    ∃ (start placed : Plan Rat) (route : Route) (departure : Instant) (q : Proposal)
      (next : Work Rat), Plan.empty twoJobs = .ok start ∧
        (Operation.recreate settings).perform twoJobs start = .ok () placed ∧
        start.routes[0]? = some route ∧
        (settings.survey twoJobs start volumes true).Proposes 0 route.vehicle departure q ∧
        Work.Countable twoJobs ⟨start, volumes⟩ ∧ Work.Countable twoJobs ⟨placed, volumes⟩ ∧
        Fill.commit twoJobs q ⟨start, volumes⟩ = .ok () next ∧
        q.CarriedOut twoJobs ⟨start, volumes⟩ next ∧
        Fill.commit twoJobs q ⟨placed, volumes⟩ =
          .error (.refused (.stopRouted (.destination 0))) ⟨placed, volumes⟩ := by
  intro settings volumes
  have linked := ProblemParts.linked_of_build build_twoParts
  have run : (Plan.empty twoJobs >>= fun start => answer ((do
      (Operation.recreate settings).perform twoJobs
      let placed ← get
      let route ← ofResult (start.route 0)
      let departure ← ofResult (route.departure twoJobs)
      let offer ← ofResult
        ((settings.survey twoJobs start volumes true).cheapest 0 0 route.vehicle departure none)
      return (offer.map fun offer : Offer Rat =>
        (answer (Fill.commit twoJobs offer.proposal ⟨start, volumes⟩),
          answer (Fill.commit twoJobs offer.proposal ⟨placed, volumes⟩)))) start)) =
      .ok (some (.ok (), .error (.refused (.stopRouted (.destination 0))))) := by
    decide +kernel
  simp only [bind_eq_ok, answer_eq_ok] at run
  obtain ⟨start, begins, _, steps⟩ := run
  obtain ⟨⟨⟩, placed, recreated, steps⟩ := bind_answers.mp steps
  rw [get_bind] at steps
  obtain ⟨route, placed, here, steps⟩ := bind_answers.mp steps
  obtain ⟨found, rfl⟩ := ofResult_answers.mp here
  obtain ⟨departure, placed, sets, steps⟩ := bind_answers.mp steps
  obtain ⟨departs, rfl⟩ := ofResult_answers.mp sets
  obtain ⟨best, placed, asked, steps⟩ := bind_answers.mp steps
  obtain ⟨calculated, rfl⟩ := ofResult_answers.mp asked
  have answers := (EStateM.Result.ok.inj steps).1
  cases best with
  | none => cases answers
  | some offer =>
      obtain ⟨first, second⟩ := Prod.mk.inj (Option.some.inj answers)
      obtain ⟨next, done⟩ := answer_eq_ok.mp first
      have stands := standing_empty begins
      have valid : (Operation.recreate settings).IsValid twoJobs :=
        reliable_forProblem twoJobs .standard
      have standsStill : placed.Standing twoJobs 2 := by
        have ends := valid.stands linked (by decide) stands
        rwa [Ends, recreated] at ends
      have found := route_eq_ok.mp found
      have proposes : (settings.survey twoJobs start volumes true).Proposes 0 route.vehicle
          departure offer.proposal := .job calculated
      refine ⟨start, placed, route, departure, offer.proposal, next, begins, recreated, found,
        proposes, stands.countable linked, standsStill.countable linked, done, ?_, ?_⟩
      · have taken : Ends (Fill.commit twoJobs offer.proposal) _ _ ⟨start, volumes⟩ :=
          commit_allOrNothing linked rfl rfl found proposes (stands.countable linked)
        rwa [Ends, done] at taken
      · have late : Ends (Fill.commit twoJobs offer.proposal) _ _ ⟨placed, volumes⟩ :=
          commit_allOrNothing linked rfl rfl found proposes (standsStill.countable linked)
        cases refused : Fill.commit twoJobs offer.proposal ⟨placed, volumes⟩ with
        | ok _ _ =>
            rw [refused] at second
            cases second
        | error e left =>
            rw [refused] at second
            cases second
            rw [Ends, refused] at late
            rw [late.unchanged (by simp)]

/-! ### What fails late -/

/-- Two jobs on the way from the depot to a site.  It takes so long to get from the second job to
the site that the calendar ends a few seconds later. -/
def farSite : Problem Rat where
  points := #[⟨0, 0⟩, ⟨1, 0⟩, ⟨2, 0⟩, ⟨3, 0⟩]
  destinations := #[⟨"a", 1, ⟨[5]⟩, .ofSeconds 10, .always⟩, ⟨"b", 2, ⟨[5]⟩, .zero, .always⟩]
  vehicles := #[⟨"v", 0, none, ⟨[10]⟩, none, some 0, false, none, none⟩]
  profiles :=
    let rows : List (List Rat) := [[0, 1, 2, 3], [1, 0, 1, 2], [2, 1, 0, 1], [3, 2, 1, 0]]
    let times : List (List Rat) :=
      [[0, 1, 2, 3], [1, 0, 1, 2], [2, 1, 0, 253402207195], [3, 2, 1, 0]]
    #[⟨"p", .ofRows rows times none⟩]
  sites := [⟨3, none⟩]
  depotCosts := #[0, 1, 2, 3]
  longestLeg := 1

/-- How an operation on plan and volumes ends, and which stops are on the routes after that. -/
structure Ending where
  answer : Except Failure Unit
  itineraries : List (Nat × List Stop)
deriving DecidableEq

def Work.ending (f : Attempt (Work α) Unit) (w : Work α) : Ending :=
  ⟨Attempt.answer (f w), (Attempt.stateAfter (f w)).plan.itineraries⟩

/-- An offer for the first job is taken up on two plans that serve the second one, and of which the
volumes can be counted.  On the plan that it was made for, the job delays the base beyond the
calendar.  On the other one the base was placed where no volumes are tracked, and the ledger was
cleared.  Either way the job is on the route when that is found out. -/
theorem commit_failsLate_farSite :
    let settings := Settings.forProblem farSite .standard
    let aside := { settings with provider := .constant [1] }
    let volumes : Volumes Rat := .ofSites farSite.sites
    ∃ plan moved marked route departure offer,
      Plan.reach farSite [.insertJobs settings [1]] = .ok plan ∧
      Plan.reach farSite [.insertJobs settings [1], .placeAll aside (.ofSites [⟨1, none⟩])] =
        .ok moved ∧
      Room.markFullRoutes farSite plan volumes 0 = .ok marked ∧ plan.route 0 = .ok route ∧
      route.departure farSite = .ok departure ∧
      (settings.survey farSite marked volumes true).cheapest 0 0 route.vehicle departure none =
        .ok (some offer) ∧
      let stale := { moved with ledger := moved.ledger.clear }
      let served := [(0, [.destination 1, .base 0])]
      let joined := [(0, [.destination 0, .destination 1, .base 0])]
      Work.ending (Work.onVolumes (Volumes.rebuild plan)) ⟨plan, volumes⟩ = ⟨.ok (), served⟩ ∧
      Work.ending (Fill.commit farSite offer.proposal) ⟨plan, volumes⟩ =
        ⟨.error (.fault .beyondCalendar), joined⟩ ∧
      Work.ending (Work.onVolumes (Volumes.rebuild stale)) ⟨stale, volumes⟩ = ⟨.ok (), served⟩ ∧
      Work.ending (Fill.commit farSite offer.proposal) ⟨stale, volumes⟩ =
        ⟨.error (.refused (.untrackedLocation 1)), joined⟩ := by
  intro settings aside volumes
  have run : (Plan.reach farSite [.insertJobs settings [1]] >>= fun plan =>
      Plan.reach farSite [.insertJobs settings [1], .placeAll aside (.ofSites [⟨1, none⟩])] >>=
        fun moved => Room.markFullRoutes farSite plan volumes 0 >>= fun marked =>
      plan.route 0 >>= fun route => route.departure farSite >>= fun departure =>
      (settings.survey farSite marked volumes true).cheapest 0 0 route.vehicle departure none >>=
        fun found => .ok (found.map fun offer : Offer Rat =>
          let stale := { moved with ledger := moved.ledger.clear }
          (Work.ending (Work.onVolumes (Volumes.rebuild plan)) ⟨plan, volumes⟩,
            Work.ending (Fill.commit farSite offer.proposal) ⟨plan, volumes⟩,
            Work.ending (Work.onVolumes (Volumes.rebuild stale)) ⟨stale, volumes⟩,
            Work.ending (Fill.commit farSite offer.proposal) ⟨stale, volumes⟩))) =
      .ok (some (⟨.ok (), [(0, [.destination 1, .base 0])]⟩,
        ⟨.error (.fault .beyondCalendar), [(0, [.destination 0, .destination 1, .base 0])]⟩,
        ⟨.ok (), [(0, [.destination 1, .base 0])]⟩,
        ⟨.error (.refused (.untrackedLocation 1)),
          [(0, [.destination 0, .destination 1, .base 0])]⟩)) := by
    decide +kernel
  simp only [bind_eq_ok] at run
  obtain ⟨plan, reached, moved, reachedToo, marked, marks, route, found, departure, departs, best,
    asked, ends⟩ := run
  cases best with
  | none => cases ends
  | some offer =>
      simp only [Option.map_some, Except.ok.injEq, Option.some.injEq, Prod.mk.injEq] at ends
      exact ⟨plan, moved, marked, route, departure, offer, reached, reachedToo, marks, found,
        departs, asked, ends⟩

end Haulage

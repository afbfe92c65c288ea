/-
Module: Haulage.Proofs.Undone
Purpose: A job that is taken up and then removed leaves no trace.  The base of a trip that was opened
  for it is handed back, and whatever follows from the stops is what it was.
Main exports: Plan.taking, Plan.Takes, Plan.Takes.ruin, Plan.Tidy, commit_takes, commit_ruin
-/
import Haulage.Proofs.Ascending
import Haulage.Proofs.Tracked
import Haulage.Proofs.UnfailingSessions

namespace Haulage

variable {α : Type} [Quantity α]

open Attempt Plan Problem

/-! ### Refreshing what was refreshed in between -/

/-- Times follow from vehicle, departure and stops. -/
theorem Route.reschedule_eq_of_same {p : Problem α} {pool : BasePool} {route now : Route}
    (vehicle : now.vehicle = route.vehicle) (departure : now.fixedDeparture = route.fixedDeparture)
    (stops : now.stops = route.stops) : now.reschedule p pool = route.reschedule p pool := by
  rcases route with ⟨v, fixed, visited, visits, endArrival⟩
  rcases now with ⟨v', fixed', visited', visits', endArrival'⟩
  cases vehicle
  cases departure
  cases stops
  rfl

omit [Quantity α] in
/-- An entry of the book that two changes leave as it was. -/
theorem Ledger.modifyEntry_twice {ledger : Ledger α} {r : Nat} {f g : RouteEntry α → RouteEntry α}
    (entered : r < ledger.routes.length) (same : g (f (ledger.entry r)) = ledger.entry r) :
    (ledger.modifyEntry r f).modifyEntry r g = ledger := by
  have once : (ledger.modifyEntry r f).modifyEntry r g = ledger.modifyEntry r (g ∘ f) := by
    have long : r + 1 - ledger.routes.length = 0 := by omega
    simp [Ledger.modifyEntry, List.rightpad, long, List.modify_modify_eq]
  rw [once]
  exact Ledger.modifyEntry_eq_self entered same

namespace Plan

variable {p : Problem α} {plan next : Plan α} {r job : Nat} {route : Route} {stops : List Stop}
  {pool : BasePool}

/-- The plan in which a route with a job has the given stops, with the given pool. -/
def taking (plan : Plan α) (r job : Nat) (route : Route) (stops : List Stop) (pool : BasePool) :
    Plan α :=
  { routes := plan.routes.set r { route with stops := stops }, pool := pool,
    ledger := plan.ledger, unassigned := plan.unassigned.erase job }

/-- A route with a job that was refreshed.  Its vehicle and its departure are as they were, and so
is everything else but pool and ledger. -/
def Takes (r job : Nat) (route : Route) (stops : List Stop) (pool : BasePool)
    (plan next : Plan α) : Prop :=
  ∃ (now : Route) (f : RouteEntry α → RouteEntry α), now.vehicle = route.vehicle ∧
    now.fixedDeparture = route.fixedDeparture ∧ now.stops = stops ∧
    (∀ e, (f e).needsBase = e.needsBase) ∧
    next = ⟨plan.routes.set r now, pool, plan.ledger.modifyEntry r f, plan.unassigned.erase job⟩

theorem takes_of_refreshRoute (found : plan.routes[r]? = some route)
    (done : (plan.taking r job route stops pool).refreshRoute p r = .ok next) :
    Takes r job route stops pool plan next := by
  have inside := (List.getElem?_eq_some_iff.mp found).1
  obtain ⟨same, fresh, entry, foundNow, rescheduled, _, rfl⟩ := refreshRoute_eq_ok done
  rw [taking, List.getElem?_set_self inside] at foundNow
  cases foundNow
  obtain ⟨vehicle, stopsNow⟩ := Route.reschedule_eq_ok rescheduled
  refine ⟨fresh, fun old => { entry with needsBase := old.needsBase }, vehicle,
    (Route.reschedule_again rescheduled).1, stopsNow, fun _ => rfl, ?_⟩
  simp only [taking, setRoute, List.set_set]

/-- With the stops that it had, a route is refreshed to what it was. -/
theorem Current.restored (current : plan.Current p r route) {now : Route}
    (vehicle : now.vehicle = route.vehicle) (departure : now.fixedDeparture = route.fixedDeparture)
    {f : RouteEntry α → RouteEntry α} (keeps : ∀ e, (f e).needsBase = e.needsBase) :
    Plan.refreshRoute p ⟨plan.routes.set r { now with stops := route.stops }, plan.pool,
      plan.ledger.modifyEntry r f, plan.unassigned⟩ r = .ok plan := by
  obtain ⟨inside, here⟩ := List.getElem?_eq_some_iff.mp current.found
  obtain ⟨entry, derived, same⟩ := current.derived
  let shorter : Route := { now with stops := route.stops }
  have times : shorter.reschedule p plan.pool = .ok route := by
    have same : shorter.reschedule p plan.pool = route.reschedule p plan.pool :=
      Route.reschedule_eq_of_same vehicle departure rfl
    exact same.trans current.times
  have routes : (plan.routes.set r shorter).set r route = plan.routes := by
    rw [List.set_set, ← here, List.set_getElem_self]
  have ledger : (plan.ledger.modifyEntry r f).modifyEntry r
      (fun old => { entry with needsBase := old.needsBase }) = plan.ledger :=
    Ledger.modifyEntry_twice current.entered (by rw [keeps, same])
  simp only [Plan.refreshRoute, Ledger.refresh, bind_eq_ok, route_eq_ok]
  refine ⟨shorter, List.getElem?_set_self inside, route, times, _, ⟨entry, derived, rfl⟩, ?_⟩
  simp only [setRoute]
  rw [routes, ledger]

/-! ### Taking a job out again -/

omit [Quantity α] in
/-- A job that no other route serves is found where it was put, and taken out. -/
theorem removeJob_set {now : Route} {front back : List Stop} {ledger : Ledger α}
    {unassigned : List Nat} (inside : r < plan.routes.length)
    (nowhere : plan.Nowhere (.destination job)) (absent : Stop.destination job ∉ front)
    (stops : now.stops = front ++ .destination job :: back) :
    removeJob (α := α) ⟨plan.routes.set r now, pool, ledger, unassigned⟩ job =
      .ok (some r, ⟨plan.routes.set r { now with stops := front ++ back }, pool, ledger,
        addJob job unassigned⟩) := by
  have serving : routeOf? (α := α) ⟨plan.routes.set r now, pool, ledger, unassigned⟩ job =
      some r := by
    rw [routeOf?, List.findIdx?_eq_some_iff_getElem]
    refine ⟨by simpa using inside, ?_, fun i below => ?_⟩
    · simp [stops]
    · have apart : r ≠ i := Nat.ne_of_gt below
      have elsewhere : i < plan.routes.length := below.trans inside
      rw [List.getElem_set_ne apart]
      simpa using nowhere _ (List.getElem_mem elsewhere)
  have position : now.stops.idxOf? (.destination job) = some front.length := by
    rw [stops, List.idxOf?_eq_some_iff]
    refine ⟨by simp, by simp, fun i below => ?_⟩
    rw [List.getElem_append_left below]
    intro same
    exact absent (same ▸ List.getElem_mem below)
  refine removeJob_eq_ok.mpr (.inr ⟨r, now, front.length, .destination job, serving,
    List.getElem?_set_self inside, position, removeStop_eq_ok.mpr ⟨now,
      List.getElem?_set_self inside, by simp [stops], ?_⟩, rfl⟩)
  have shorter : now.stops.eraseIdx front.length = front ++ back := by
    rw [stops, List.eraseIdx_append_of_length_le (Nat.le_refl _), Nat.sub_self]
    rfl
  rw [shorter]
  simp only [handBack, setRoute, List.set_set]

/-- What is left of some stops and of a pool once idle bases are handed back: the stops of a route
and the pool of a plan. -/
def Tidies (plan : Plan α) (route : Route) (left : List Stop) (pool : BasePool) : Prop :=
  ∃ idle, splitIdleBases true left = (route.stops, idle) ∧ ∀ other : Plan α, other.pool = pool →
    (idle.map Stop.base).foldlM handBack other = .ok { other with pool := plan.pool }

/-- Of all routes one lost the job. -/
theorem filter_range_eq {n : Nat} (inside : r < n) :
    ((List.range n).filter fun i => [(job, r)].any (·.2 = i)) = [r] := by
  have single : (fun i => [(job, r)].any (·.2 = i)) = fun i => i == r := by
    funext i
    simp only [List.any_cons, List.any_nil, Bool.or_false]
    exact Bool.decide_congr eq_comm
  rw [single, List.filter_beq, List.count_range, if_pos inside]
  rfl

/-- When the job is removed from the route that took it up, everything is as it was before. -/
theorem Takes.ruin {front back : List Stop} (current : plan.Current p r route)
    (ascending : plan.Ascending) (waits : job ∈ plan.unassigned)
    (nowhere : plan.Nowhere (.destination job)) (absent : Stop.destination job ∉ front)
    (tidies : plan.Tidies route (front ++ back) pool)
    (takes : Takes r job route (front ++ .destination job :: back) pool plan next) :
    next.ruin p [job] = .ok ([job], plan) := by
  obtain ⟨inside, _⟩ := List.getElem?_eq_some_iff.mp current.found
  obtain ⟨now, f, vehicle, departure, stops, keeps, rfl⟩ := takes
  obtain ⟨idle, splits, handed⟩ := tidies
  have taken : Plan.removeJobs (α := α) ⟨plan.routes.set r now, pool, plan.ledger.modifyEntry r f,
      plan.unassigned.erase job⟩ [job] = .ok ([(job, r)], ⟨plan.routes.set r
        { now with stops := front ++ back }, pool, plan.ledger.modifyEntry r f,
        plan.unassigned⟩) := by
    rw [Plan.removeJobs, removeJob_set inside nowhere absent stops, addJob_erase ascending waits]
    rfl
  have tidied : Plan.clearIdleBases (α := α) ⟨plan.routes.set r { now with stops := front ++ back },
      pool, plan.ledger.modifyEntry r f, plan.unassigned⟩ r = .ok (idle.length,
        ⟨plan.routes.set r { now with stops := route.stops }, plan.pool,
          plan.ledger.modifyEntry r f, plan.unassigned⟩) := by
    refine clearIdleBases_eq_ok.mpr ⟨_, List.getElem?_set_self inside, by rw [splits], ?_⟩
    simp only [splits, setRoute, List.set_set]
    exact handed _ rfl
  have repaired : Plan.repairRoute (α := α) p ⟨plan.routes.set r { now with stops := front ++ back },
      pool, plan.ledger.modifyEntry r f, plan.unassigned⟩ r = .ok plan := by
    rw [Plan.repairRoute, tidied]
    exact current.restored vehicle departure keeps
  have touched : (List.range (plan.routes.set r { now with stops := front ++ back }).length).filter
      (fun i => [(job, r)].any (·.2 = i)) = [r] := by
    rw [List.length_set]
    exact filter_range_eq inside
  simp only [Plan.ruin, taken, routeIds, bind_eq_ok]
  refine ⟨_, rfl, plan, ?_, rfl⟩
  rw [touched, List.foldlM_cons, repaired]
  rfl

end Plan

/-! ### Idle bases -/

/-- A base that was taken out of the free ones, put somewhere and handed back is as it was. -/
theorem BasePool.release_placed {pool : BasePool} {b location : Nat} {duration : Duration}
    (cleared : pool.Cleared) (free : pool.isFree b = true) :
    ((pool.without b).placed b location duration).release b = .ok (true, pool) := by
  obtain ⟨⟨⟨id, place, time⟩, isFree⟩, found, waits⟩ := BasePool.isFree_eq_true.mp free
  obtain ⟨nowhere, idle⟩ := cleared _ (List.mem_of_getElem? found) waits
  cases waits
  cases nowhere
  cases idle
  have inside : b < pool.size := (List.getElem?_eq_some_iff.mp found).1
  refine (release_eq_ok (by simp [isFree_without])).mpr ⟨by simpa using inside, rfl, ?_⟩
  rcases pool with ⟨entries⟩
  simp only [without, placed, handedBack, modifyEntry, List.modify_modify_eq, mk.injEq]
  apply List.ext_getElem?
  intro i
  rw [List.getElem?_modify]
  by_cases own : b = i
  · subst own
    simp [found, Base.clear, Base.place, Duration.zero]
  · simp [own]

/-- Behind trips that all serve a job, one more base is idle. -/
theorem splitIdleBases_append_base {served : List Nat} {stops : List Stop} (b : Nat)
    (serves : ∀ t ∈ (tripsOf served stops).1, t.jobs ≠ []) (closed : (tripsOf served stops).2 = []) :
    splitIdleBases served.isEmpty (stops ++ [.base b]) = (stops, [b]) := by
  induction stops generalizing served with
  | nil =>
      have none : served = [] := closed
      rw [none]
      rfl
  | cons stop rest inductionHypothesis =>
      cases stop with
      | destination job =>
          have later := inductionHypothesis serves closed
          have known : (served ++ [job]).isEmpty = false := by simp
          rw [known] at later
          simp only [List.cons_append, splitIdleBases, later]
      | base c =>
          have behind : splitIdleBases ([] : List Nat).isEmpty (rest ++ [.base b]) = (rest, [b]) :=
            inductionHypothesis (fun t member => serves t (List.mem_cons_of_mem _ member)) closed
          have own : served ≠ [] := serves ⟨served, c⟩ List.mem_cons_self
          have under : served.isEmpty = false := by simpa using own
          rw [List.isEmpty_nil] at behind
          simp only [List.cons_append, splitIdleBases, under, behind, Bool.false_eq_true, if_false]

/-! ### Taking up a job -/

/-- A plan that conserves all stops and of which nothing is out of date, with bases where volumes are
tracked, all stops in whole trips, and the unassigned jobs in order. -/
structure Plan.Tidy (p : Problem α) (bases : Nat) (plan : Plan α) : Prop where
  conserved : Conserved p.destinations.size bases plan
  upToDate : plan.UpToDate p
  tracks : plan.pool.Lies p.Tracks
  inTrips : ∀ r stops, plan.Visits r stops → InTrips False plan.pool stops
  ascending : plan.Ascending

section

variable {p : Problem α} {provider : LocationProvider α} {volumes : Volumes α} {bases job : Nat}
  {plan : Plan α} {q : Proposal}

omit [Quantity α] in
/-- No route serves a job that waits. -/
theorem Plan.Holding.nowhere_of_waits {jobs : Nat} (conserved : Conserved jobs bases plan)
    (waits : job ∈ plan.unassigned) : plan.Nowhere (.destination job) := by
  apply nowhere_of_routed_eq_zero
  have once := conserved.once (.destination job)
  have most := Bool.toNat_le (knows jobs bases (.destination job))
  have waiting : 0 < plan.waiting (.destination job) := List.count_pos_iff.mpr waits
  rw [tally] at once
  omega

/-- The changes of a proposal put the job between the stops of a route.  What is left when it is taken
out again and idle bases are handed back is the plan as it was. -/
def Proposal.Puts (plan : Plan α) (job : Nat) (q : Proposal) : Prop :=
  ∃ route front back pool, plan.routes[q.route]? = some route ∧
    plan.Tidies route (front ++ back) pool ∧ Stop.destination job ∉ front ∧
    Ends (makeChanges q.changes)
      (fun _ next => next = plan.taking q.route job route (front ++ .destination job :: back) pool)
      (fun _ _ => False) plan

section

variable {route : Route} {v : Vehicle α} {demand : Load α}

/-- In a trip that is there already, no base becomes idle. -/
theorem JoinsTrip.puts {before after : List Stop} (found : plan.routes[q.route]? = some route)
    (inTrips : InTrips False plan.pool route.stops) (waits : job ∈ plan.unassigned)
    (absent : Stop.destination job ∉ route.stops)
    (joins : JoinsTrip plan volumes route v job demand before after q) : q.Puts plan job := by
  refine ⟨route, before, after, plan.pool, found, ⟨[], ?_, fun other same => ?_⟩, ?_, ?_⟩
  · rw [← joins.stops_eq]
    exact splitIdleBases_of_serves inTrips.serves
  · rw [← same]
    rfl
  · intro member
    rw [joins.stops_eq] at absent
    exact absent (List.mem_append_left _ member)
  · have inside : before.length ≤ route.stops.length := by
      rw [joins.stops_eq, List.length_append]
      omega
    have inserted := insertStop_destination.mpr ⟨route, found, inside, waits, rfl⟩
    rw [joins.changes_eq]
    apply ends_makeChanges_insert inserted
    rw [joins.stops_eq, insertIdx_between]
    rfl

/-- Without the job, the base of a trip that was opened for it is idle. -/
theorem OpensTrip.puts {b location : Nat} {duration : Duration} (cleared : plan.pool.Cleared)
    (found : plan.routes[q.route]? = some route) (inTrips : InTrips False plan.pool route.stops)
    (waits : job ∈ plan.unassigned) (absent : Stop.destination job ∉ route.stops)
    (opens : OpensTrip plan volumes provider route v job demand b location duration q) :
    q.Puts plan job := by
  have free := BasePool.isFree_of_lowestFree? opens.lowest
  refine ⟨route, route.stops, [.base b], (plan.pool.without b).placed b location duration, found,
    ⟨[b], ?_, fun other same => ?_⟩, absent, ?_⟩
  · exact splitIdleBases_append_base b inTrips.serves (inTrips.closed not_false)
  · have released : ((plan.pool.without b).placed b location duration).release b =
        .ok (true, plan.pool) := BasePool.release_placed cleared free
    rw [List.map_singleton, List.foldlM_cons, handBack, same, released]
    rfl
  · have first : plan.insertStop q.route route.stops.length (.destination job) =
        .ok (plan.taking q.route job route (route.stops ++ [.destination job]) plan.pool) :=
      insertStop_destination.mpr ⟨route, found, Nat.le_refl _, waits, by
        rw [List.insertIdx_length_self, taking, setRoute]⟩
    have inside := (List.getElem?_eq_some_iff.mp found).1
    have second : (plan.taking q.route job route (route.stops ++ [.destination job])
        plan.pool).insertStop q.route (route.stops.length + 1) (.base b) =
        .ok (plan.taking q.route job route (route.stops ++ [.destination job, .base b])
          (plan.pool.without b)) := by
      refine insertStop_base.mpr ⟨_, List.getElem?_set_self inside, by simp, free, ?_⟩
      have behind : (route.stops ++ [Stop.destination job]).insertIdx (route.stops.length + 1)
          (.base b) = route.stops ++ [.destination job, .base b] := by
        simpa using insertIdx_between (route.stops ++ [Stop.destination job]) [] (.base b)
      simp only [taking, setRoute, List.set_set, behind]
    obtain ⟨e, there, _⟩ := BasePool.isFree_eq_true.mp free
    have known : b < (plan.pool.without b).size := by
      rw [BasePool.size_without]
      exact (List.getElem?_eq_some_iff.mp there).1
    rw [opens.changes_eq]
    apply ends_makeChanges_insert first
    apply ends_makeChanges_insert second
    exact ends_makeChanges_place (placeBase_eq_ok.mpr ⟨known, rfl⟩) rfl

end

theorem Serves.puts (tidy : plan.Tidy p bases) (waits : job ∈ plan.unassigned)
    (serves : Serves p plan volumes provider job q) : q.Puts plan job := by
  have nowhere := Plan.Holding.nowhere_of_waits tidy.conserved waits
  rcases serves with ⟨route, v, d, found, _, _, _, offer⟩
  have absent := nowhere route (List.mem_of_getElem? found)
  have inTrips := tidy.inTrips q.route route.stops (visits_of_route found)
  rcases offer with ⟨before, after, joins⟩ | ⟨b, location, duration, opens⟩
  · exact joins.puts found inTrips waits absent
  · exact opens.puts tidy.conserved.cleared found inTrips waits absent

/-- An offer for a job that waits is taken up, and undone by the removal of the job. -/
theorem commit_takes {w : Work α} (linked : p.Linked) (tidy : w.plan.Tidy p bases)
    (limits : w.volumes.clear = (Volumes.ofSites p.sites).clear) (waits : job ∈ w.plan.unassigned)
    (serves : Serves p w.plan w.volumes provider job q) :
    Ends (Fill.commit p q) (fun _ next => next.plan.ruin p [job] = .ok ([job], w.plan))
      (fun e _ => p.Excuses e) w := by
  have tracks : w.Tracks p := ⟨tidy.tracks, limits⟩
  have known := tidy.conserved.unassigned_lt waits
  have nowhere := Plan.Holding.nowhere_of_waits tidy.conserved waits
  obtain ⟨route, front, back, pool, found, tidies, absent, puts⟩ := serves.puts tidy waits
  obtain ⟨same, current⟩ := tidy.upToDate q.route (List.getElem?_eq_some_iff.mp found).1
  cases found.symm.trans current.found
  obtain ⟨inside, _⟩ := List.getElem?_eq_some_iff.mp found
  apply Work.commit_ends
  · intro e failed
    cases (serves.checks waits).symm.trans failed
  · apply ((puts.and (serves.conserves tidy.conserved)).and
      ((lies_makeChanges tracks.pool (serves.placesTracked tracks)).and
        (serves.changesAll tidy.conserved))).mono
    · rintro _ next ⟨⟨rfl, conserved⟩, lies, changes⟩
      have foundNow : (w.plan.taking q.route job route (front ++ .destination job :: back)
          pool).routes[q.route]? = some _ := List.getElem?_set_self inside
      have refreshes := yields_refreshRoute linked foundNow current.drives fun _ =>
        conserved.hasStop lies (fun _ => Problem.Tracks.lt_of_linked linked)
          (visits_of_route foundNow)
      refine ⟨refreshes.fails, fun fresh done => ?_⟩
      have agrees := agrees_refreshRoute tidy.upToDate.agrees changes done
      have pooled : fresh.pool = pool := (refreshRoute_keeps done).2.1
      obtain ⟨counted, counts, _⟩ := Work.recount_answers (q := q) (w := { w with plan := fresh })
        agrees (fun b location there => by
          rw [Volumes.isSome_tracked?_of_clear limits]
          exact lies b location (pooled ▸ there))
        (fun other asked => by
          rw [serves.job?_eq] at asked
          cases asked
          exact known)
        ⟨_, (visits_of_route foundNow).refreshRoute done⟩
      have counts : Work.recount p q w.volumes fresh { w with plan := fresh } =
        .ok () ⟨fresh, counted⟩ := counts
      rw [Ends, counts]
      exact (takes_of_refreshRoute found done).ruin current tidy.ascending waits nowhere absent tidies
    · rintro _ _ ⟨⟨impossible, _⟩, _⟩
      exact impossible.elim

end

/-! ### Histories -/

section

variable {p : Problem α} {plan : Plan α} {job bases : Nat}

/-- Marks for the job at hand leave a plan tidy. -/
theorem Plan.Tidy.marks {marked : Plan α} {volumes : Volumes α} (tidy : plan.Tidy p bases)
    (done : Room.markFullRoutes p plan volumes job = .ok marked) : marked.Tidy p bases := by
  obtain ⟨ledger, rfl, same, enters⟩ := Room.markFullRoutes_eq_ok done
  exact ⟨tidy.conserved.congr rfl rfl rfl, tidy.upToDate.marks same enters, tidy.tracks,
    tidy.inTrips, tidy.ascending⟩

/-- Where no base was put into a route on its own, a plan of which nothing is out of date is tidy. -/
theorem tidy_of_reach {operations : List (Operation α)}
    (refreshes : ∀ operation ∈ operations, operation.Refreshes)
    (whole : ∀ settings r, Operation.insertBase settings r ∉ operations)
    (reached : Plan.reach p operations = .ok plan) (fresh : plan.refreshRoutes p = .ok plan) :
    plan.Tidy p (max p.destinations.size 1) := by
  have all : plan.AllInTrips False p.destinations.size (max p.destinations.size 1) := by
    refine reach_keeps (Plan.AllInTrips False _ _) (fun operation member before kept => ?_)
      (fun start begins => ⟨withPool_conserves begins, fun r stops visits => ?_⟩) reached
    · refine (operation.inTrips p (fun job same => ?_) (fun settings r same => ?_) kept).mono
        (fun _ _ now => now) fun _ _ left _ _ => left
      · cases same
        exact refreshes _ member
      · exact whole settings r (same ▸ member)
    · rw [visits_empty begins visits]
      exact .nil False _
  exact ⟨all.conserved, refreshRoutes_eq_self.mp fresh, reach_tracks refreshes reached, all.routes,
    reach_ascending reached⟩

end

/-- After any history of passes and removals, on a plan that a refresh of all routes leaves alone,
whether or not routes are marked for the job: an offer for a job that waits, for a route with its own
vehicle and departure, is taken up, and when the job is removed everything is as it was before.  The
commit fails only in a way that is excused. -/
theorem commit_ruin {parts : ProblemParts α} {p : Problem α} (built : parts.build = .ok p)
    {operations : List (Operation α)} {plan : Plan α}
    (refreshes : ∀ operation ∈ operations, operation.Refreshes)
    (whole : ∀ settings r, Operation.insertBase settings r ∉ operations)
    (reached : Plan.reach p operations = .ok plan) (fresh : plan.refreshRoutes p = .ok plan)
    {s : Survey α} {job r : Nat} {known : Bound α} {offer : Offer α} (asks : s.problem = p)
    (sees : s.plan = plan ∨ Room.markFullRoutes p plan s.volumes job = .ok s.plan)
    (limits : s.volumes.clear = (Volumes.ofSites p.sites).clear) (waits : job ∈ plan.unassigned)
    (found : s.cheapestOnRoute job known r = .ok (some offer)) :
    Ends (Fill.commit p offer.proposal)
      (fun _ next => next.plan.ruin p [job] = .ok ([job], s.plan)) (fun e _ => p.Excuses e)
      ⟨s.plan, s.volumes⟩ := by
  have tidy := tidy_of_reach refreshes whole reached fresh
  obtain ⟨tidyNow, waitsNow⟩ : s.plan.Tidy p (max p.destinations.size 1) ∧
      job ∈ s.plan.unassigned := by
    rcases sees with same | marked
    · exact same ▸ ⟨tidy, waits⟩
    · obtain ⟨ledger, same, _⟩ := Room.markFullRoutes_eq_ok marked
      exact ⟨tidy.marks marked, by rw [same]; exact waits⟩
  obtain ⟨_, serves⟩ := Survey.cheapestOnRoute_serves found
  exact commit_takes (ProblemParts.linked_of_build built) tidyNow limits waitsNow (asks ▸ serves)

/-- The second job opens a trip with the base that is left, and hands it back. -/
theorem commit_ruin_twoJobs :
    let settings := Settings.forProblem twoJobs .standard
    let operations : List (Operation Rat) := [.recreate settings, .ruin [1]]
    let volumes := Volumes.ofSites twoJobs.sites
    (∀ operation ∈ operations, operation.Refreshes) ∧
      (∀ other r, Operation.insertBase other r ∉ operations) ∧
      ∃ plan marked offer w, Plan.reach twoJobs operations = .ok plan ∧
        plan.refreshRoutes twoJobs = .ok plan ∧
        Room.markFullRoutes twoJobs plan volumes 1 = .ok marked ∧ 1 ∈ plan.unassigned ∧
        (settings.survey twoJobs marked volumes true).cheapestOnRoute 1 none 0 =
          .ok (some offer) ∧
        Fill.commit twoJobs offer.proposal ⟨marked, volumes⟩ = .ok () w ∧
        w.plan.itineraries = [(0, [.destination 0, .base 0, .destination 1, .base 1])] ∧
        marked.itineraries = [(0, [.destination 0, .base 0])] ∧
        w.plan.ruin twoJobs [1] = .ok ([1], marked) := by
  intro settings operations volumes
  have refreshes : ∀ operation ∈ operations, operation.Refreshes := by
    simp [operations, Operation.Refreshes]
  have whole (other : Settings Rat) (r : Nat) : Operation.insertBase other r ∉ operations := by
    simp [operations]
  have run : (Plan.reach twoJobs operations >>= fun plan =>
      plan.refreshRoutes twoJobs >>= fun fresh =>
      Room.markFullRoutes twoJobs plan volumes 1 >>= fun marked =>
      (settings.survey twoJobs marked volumes true).cheapestOnRoute 1 none 0 >>= fun found =>
      orOutOfTable found >>= fun offer => answer ((do
        Fill.commit twoJobs offer.proposal
        return (decide (fresh = plan ∧ 1 ∈ plan.unassigned),
          [marked.itineraries, (← get).plan.itineraries])) ⟨marked, volumes⟩)) =
      .ok (true, [[(0, [.destination 0, .base 0])],
        [(0, [.destination 0, .base 0, .destination 1, .base 1])]]) := by decide +kernel
  simp only [bind_eq_ok, orOutOfTable_eq_ok, answer_eq_ok] at run
  obtain ⟨plan, reached, fresh, refreshed, marked, marks, _, found, offer, rfl, _, both⟩ := run
  obtain ⟨⟨⟩, w, committed, answers⟩ := bind_answers.mp both
  simp only [get_bind] at answers
  obtain ⟨facts, _⟩ := EStateM.Result.ok.inj answers
  simp only [Prod.mk.injEq, decide_eq_true_eq, List.cons.injEq, and_true] at facts
  obtain ⟨⟨rfl, waits⟩, before, itineraries⟩ := facts
  have ends := commit_ruin build_twoParts refreshes whole reached refreshed
    (s := settings.survey twoJobs marked volumes true) rfl (.inr marks) rfl waits found
  have ends : Ends (Fill.commit twoJobs offer.proposal) _ _ ⟨marked, volumes⟩ := ends
  rw [Ends, committed] at ends
  exact ⟨refreshes, whole, fresh, marked, offer, w, reached, refreshed, marks, waits, found,
    committed, itineraries, before, ends⟩

end Haulage

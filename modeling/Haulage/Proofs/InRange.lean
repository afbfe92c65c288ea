/-
Module: Haulage.Proofs.InRange
Purpose: Plans that refer to nothing beyond their problem.  One route belongs to each vehicle, all
  stops are known, and bases lie at unload sites.  Edits and refreshes keep that, and they end at
  worst with a failure that is excused.
Main exports: BasePool.Lies, BasePool.Sited, Plan.InRange, Plan.InRange.refreshRoute,
  Plan.InRange.repairRoute, Plan.InRange.ruin, Plan.InRange.resetRoute
-/
import Haulage.Proofs.Lapses
import Haulage.Proofs.Orderly

namespace Haulage

variable {α : Type} [Quantity α]

open Problem

/-! ### Where bases lie -/

namespace BasePool

/-- No base lies anywhere but at a place of the given kind. -/
def Lies (P : Nat → Prop) (pool : BasePool) : Prop :=
  ∀ b location, pool.locationOf b = some location → P location

/-- No base lies anywhere but at an unload site. -/
def Sited (p : Problem α) (pool : BasePool) : Prop :=
  ∀ b location, pool.locationOf b = some location → location ∈ p.unloadLocations

section

variable {P : Nat → Prop} {pool after : BasePool} {b location : Nat}

/-- A base that is as it was, or lies nowhere, or lies at such a place. -/
theorem Lies.modifyEntry (lies : pool.Lies P) {f : PoolEntry → PoolEntry}
    (changed : ∀ e place, pool.entries[b]? = some e → (f e).base.location = some place →
      e.base.location = some place ∨ P place) : (pool.modifyEntry b f).Lies P := by
  intro c place there
  by_cases same : b = c
  · subst same
    rw [locationOf, BasePool.modifyEntry, List.getElem?_modify_eq] at there
    obtain ⟨e', mapped, there⟩ := Option.bind_eq_some_iff.mp there
    obtain ⟨e, found, rfl⟩ := Option.map_eq_some_iff.mp mapped
    rcases changed e place found there with before | kind
    · exact lies b place (by rw [locationOf, found]; exact before)
    · exact kind
  · rw [locationOf_modifyEntry_of_ne same] at there
    exact lies c place there

theorem Lies.without (lies : pool.Lies P) (b : Nat) : (pool.without b).Lies P :=
  lies.modifyEntry fun _ _ _ => Or.inl

theorem Lies.placed (lies : pool.Lies P) (kind : P location) (duration : Duration) :
    (pool.placed b location duration).Lies P := by
  apply lies.modifyEntry
  intro e place _ there
  cases there
  exact .inr kind

theorem Lies.release {wasOut : Bool} (lies : pool.Lies P)
    (done : pool.release b = .ok (wasOut, after)) : after.Lies P := by
  rw [BasePool.release] at done
  split_ifs at done
  · cases done
    exact lies
  · cases done
    apply lies.modifyEntry
    intro e place _ there
    cases there

theorem Lies.refresh {routes : List (List Stop)} (lies : pool.Lies P)
    (done : pool.refresh routes = .ok after) : after.Lies P := by
  simp only [BasePool.refresh] at done
  split at done
  · cases done
    intro b place there
    rw [locationOf, List.getElem?_mapIdx] at there
    obtain ⟨e', mapped, there⟩ := Option.bind_eq_some_iff.mp there
    obtain ⟨e, found, rfl⟩ := Option.map_eq_some_iff.mp mapped
    split at there
    · exact lies b place (by rw [locationOf, found]; exact there)
    · cases there
  · cases done

/-- In the beginning no base lies anywhere. -/
theorem lies_ofSize (P : Nat → Prop) (size : Nat) : (ofSize size).Lies P := by
  intro b place there
  obtain ⟨e, found, there⟩ := Option.bind_eq_some_iff.mp there
  simp only [ofSize, ofBases, List.map_map, List.getElem?_map] at found
  obtain ⟨i, _, rfl⟩ := Option.map_eq_some_iff.mp found
  cases there

end

end BasePool

omit [Quantity α] in
/-- A stop whose location can be looked up is known, where bases lie at known places. -/
theorem Problem.hasStop_of_stopLocation {P : Nat → Prop} {p : Problem α} {pool : BasePool}
    {stop : Stop} {here : Option Nat} (lies : pool.Lies P)
    (inside : ∀ location, P location → location < p.points.size)
    (found : p.stopLocation pool stop = .ok here) : p.HasStop pool stop := by
  cases stop with
  | destination job =>
      obtain ⟨d, served, _⟩ := bind_eq_ok.mp found
      exact (Array.getElem?_eq_some_iff.mp (orOutOfTable_eq_ok.mp served)).1
  | base b =>
      obtain ⟨base, pooled, _⟩ := bind_eq_ok.mp found
      refine ⟨base, pooled, fun location there => inside location (lies b location ?_)⟩
      rw [BasePool.locationOf_eq pooled, there]

/-! ### Plans -/

namespace Plan

/-- A plan with a route for each vehicle, that loses no stop, with bases at unload sites. -/
structure InRange (p : Problem α) (bases : Nat) (plan : Plan α) : Prop where
  vehicles : plan.itineraries.map (·.1) = List.range p.vehicles.size
  conserved : Conserved p.destinations.size bases plan
  sited : plan.pool.Sited p

section

variable {p : Problem α} {bases r : Nat} {plan next : Plan α} {stops : List Stop} {route : Route}

omit [Quantity α]

/-- Every stop that is visited is known, where bases lie at known places. -/
theorem Holding.hasStop {P : Nat → Prop} (conserved : Conserved p.destinations.size bases plan)
    (lies : plan.pool.Lies P) (inside : ∀ location, P location → location < p.points.size)
    (visits : plan.Visits r stops) {stop : Stop} (member : stop ∈ stops) :
    p.HasStop plan.pool stop := by
  have routed := routed_pos_of_visits visits member
  have once := conserved.once stop
  rw [tally] at once
  have known : knows p.destinations.size bases stop = true := by
    by_contra unknown
    rw [Bool.not_eq_true] at unknown
    rw [unknown, Bool.toNat_false] at once
    omega
  cases stop with
  | destination job =>
      have below : job < p.destinations.size := of_decide_eq_true known
      exact below
  | base b =>
      have below : b < plan.pool.size := conserved.size_eq ▸ of_decide_eq_true known
      refine ⟨plan.pool.entries[b].base, ?_, fun location there => ?_⟩
      · rw [BasePool.base, List.getElem?_eq_getElem below]
        rfl
      · apply inside
        apply lies b
        rw [BasePool.locationOf, List.getElem?_eq_getElem below]
        exact there

namespace InRange

/-- As long as a route keeps its vehicle, its stops may change. -/
theorem changed {vehicle : Nat} {now : List Stop} (inRange : plan.InRange p bases)
    (found : plan.itineraries[r]? = some (vehicle, stops))
    (changed : next.itineraries = plan.itineraries.set r (vehicle, now))
    (conserved : Conserved p.destinations.size bases next) (sited : next.pool.Sited p) :
    next.InRange p bases := by
  refine ⟨?_, conserved, sited⟩
  obtain ⟨inside, here⟩ := List.getElem?_eq_some_iff.mp found
  have short : r < (plan.itineraries.map (·.1)).length := by simpa using inside
  have same : (plan.itineraries.map (·.1))[r] = vehicle := by simp [here]
  rw [changed, List.map_set, ← same, List.set_getElem_self]
  exact inRange.vehicles

theorem congr (inRange : plan.InRange p bases) (itineraries : next.itineraries = plan.itineraries)
    (conserved : Conserved p.destinations.size bases next) (sited : next.pool.Sited p) :
    next.InRange p bases := by
  refine ⟨?_, conserved, sited⟩
  rw [itineraries]
  exact inRange.vehicles

theorem length_routes (inRange : plan.InRange p bases) :
    plan.routes.length = p.vehicles.size := by
  have lengths := congrArg List.length inRange.vehicles
  simpa [Plan.itineraries] using lengths

/-- Every vehicle has a route. -/
theorem exists_route (inRange : plan.InRange p bases) (known : r < p.vehicles.size) :
    ∃ route, plan.routes[r]? = some route := by
  rw [← inRange.length_routes] at known
  exact ⟨_, List.getElem?_eq_getElem known⟩

/-- Every route has the vehicle with its number. -/
theorem vehicle_eq (inRange : plan.InRange p bases) (found : plan.routes[r]? = some route) :
    route.vehicle = r ∧ r < p.vehicles.size := by
  have itinerary := congrArg (Option.map Prod.fst) (itineraries_of_route found)
  rw [← List.getElem?_map, inRange.vehicles] at itinerary
  obtain ⟨inside, equal⟩ := List.getElem?_eq_some_iff.mp itinerary
  rw [List.length_range] at inside
  rw [List.getElem_range] at equal
  exact ⟨equal.symm, inside⟩

theorem drives (inRange : plan.InRange p bases) (found : plan.routes[r]? = some route) :
    route.vehicle < p.vehicles.size := by
  obtain ⟨same, inside⟩ := inRange.vehicle_eq found
  exact same ▸ inside

/-- Every stop that is visited is known. -/
theorem hasStop (linked : p.Linked) (inRange : plan.InRange p bases)
    (visits : plan.Visits r stops) {stop : Stop} (member : stop ∈ stops) :
    p.HasStop plan.pool stop :=
  inRange.conserved.hasStop inRange.sited linked.sites visits member

end InRange

/-! ### Handing back -/

/-- The pool has the bases that are visited. -/
theorem Holding.base_lt {jobs b : Nat} (conserved : Conserved jobs bases plan)
    (visits : plan.Visits r stops) (member : .base b ∈ stops) : b < plan.pool.size := by
  have taken := conserved.once (.base b)
  have routed := routed_pos_of_visits visits member
  rw [tally, knows, ← conserved.size_eq] at taken
  by_contra outside
  rw [decide_eq_false outside, Bool.toNat_false] at taken
  omega

/-- Stops that the pool knows are handed back without a failure. -/
theorem handBackAll_answers {given : List Stop}
    (known : ∀ b, .base b ∈ given → b < plan.pool.size) :
    ∃ after, given.foldlM handBack plan = .ok after := by
  induction given generalizing plan with
  | nil => exact ⟨plan, rfl⟩
  | cons stop rest inductionHypothesis =>
      have head : ∃ next, plan.handBack stop = .ok next := by
        cases stop with
        | destination job => exact ⟨_, rfl⟩
        | base b =>
            have inside := known b List.mem_cons_self
            simp only [handBack, BasePool.release]
            split_ifs
            · exact ⟨_, rfl⟩
            · exact ⟨_, rfl⟩
      obtain ⟨next, handed⟩ := head
      have knownNow : ∀ b, .base b ∈ rest → b < next.pool.size := by
        intro b member
        rw [size_handBack handed]
        exact known b (List.mem_cons_of_mem stop member)
      obtain ⟨after, later⟩ := inductionHypothesis knownNow
      refine ⟨after, ?_⟩
      rw [List.foldlM_cons, bind_eq_ok]
      exact ⟨next, handed, later⟩

theorem lies_handBackAll {P : Nat → Prop} {given : List Stop}
    (done : given.foldlM handBack plan = .ok next) (lies : plan.pool.Lies P) :
    next.pool.Lies P := by
  refine foldlM_keeps (fun q : Plan α => q.pool.Lies P) (fun stop _ before after kept step => ?_)
    lies done
  cases stop with
  | destination job =>
      cases step
      exact kept
  | base b =>
      simp only [handBack, bind_eq_ok] at step
      rcases step with ⟨⟨_, pool⟩, released, equal⟩
      cases equal
      exact kept.release released

/-- Stops of a route are handed back. -/
theorem Holding.handBackAll_answers {jobs : Nat} (conserved : Conserved jobs bases plan)
    (visits : plan.Visits r stops) (given : List Stop) (other : Plan α)
    (pool : other.pool = plan.pool) (among : ∀ b, .base b ∈ given → .base b ∈ stops) :
    ∃ after, given.foldlM Plan.handBack other = .ok after := by
  apply Plan.handBackAll_answers
  intro b member
  rw [pool]
  exact conserved.base_lt visits (among b member)

/-- The bases of a route that close no trip are taken out. -/
theorem Holding.clearIdleBases_answers {jobs : Nat} (conserved : Conserved jobs bases plan)
    (found : plan.routes[r]? = some route) :
    ∃ count next, plan.clearIdleBases r = .ok (count, next) := by
  obtain ⟨next, handed⟩ := conserved.handBackAll_answers (visits_of_route found)
    ((splitIdleBases true route.stops).2.map Stop.base)
    (plan.setRoute r { route with stops := (splitIdleBases true route.stops).1 }) rfl
    fun b member => (splitIdleBases_perm true route.stops).mem_iff.mp
      (List.mem_append_left _ member)
  exact ⟨_, next, clearIdleBases_eq_ok.mpr ⟨route, found, rfl, handed⟩⟩

/-- A job can always be taken out of the route that serves it. -/
theorem removeJob_answers (plan : Plan α) (job : Nat) :
    ∃ from? next, plan.removeJob job = .ok (from?, next) := by
  cases serving : plan.routeOf? job with
  | none => exact ⟨none, plan, removeJob_eq_ok.mpr (.inl ⟨serving, rfl, rfl⟩)⟩
  | some r =>
      obtain ⟨inside, serves, _⟩ := List.findIdx?_eq_some_iff_getElem.mp serving
      have member : .destination job ∈ plan.routes[r].stops := by simpa using serves
      obtain ⟨position, place⟩ := Option.isSome_iff_exists.mp (List.isSome_idxOf?.mpr member)
      obtain ⟨there, equal, _⟩ := List.idxOf?_eq_some_iff.mp place
      have found : plan.routes[r]? = some plan.routes[r] := List.getElem?_eq_getElem inside
      have removed := removeStop_eq_ok.mpr ⟨plan.routes[r], found,
        (List.getElem?_eq_getElem there).trans (congrArg some equal), rfl⟩
      exact ⟨_, _, removeJob_eq_ok.mpr
        (.inr ⟨r, plan.routes[r], position, _, serving, found, place, removed, rfl⟩)⟩

theorem removeJobs_answers (plan : Plan α) (given : List Nat) :
    ∃ removed next, plan.removeJobs given = .ok (removed, next) := by
  induction given generalizing plan with
  | nil => exact ⟨[], plan, rfl⟩
  | cons job rest inductionHypothesis =>
      obtain ⟨from?, middle, head⟩ := removeJob_answers plan job
      obtain ⟨removed, next, tail⟩ := inductionHypothesis middle
      cases from? with
      | none => exact ⟨removed, next, by simp [removeJobs, head, tail, bind, Except.bind]⟩
      | some r =>
          exact ⟨(job, r) :: removed, next, by simp [removeJobs, head, tail, bind, Except.bind]⟩

namespace InRange

/-! ### Edits -/

theorem refreshBases (inRange : plan.InRange p bases) :
    ∃ pooled, plan.refreshBases = .ok pooled ∧ pooled.InRange p bases := by
  obtain ⟨pooled, done⟩ := inRange.conserved.orderly.refreshBases_answers
  refine ⟨pooled, done, inRange.congr (refreshBases_keeps done).1
    (Holding.refreshBases inRange.conserved done) ?_⟩
  simp only [Plan.refreshBases, bind_eq_ok] at done
  rcases done with ⟨pool, refreshed, equal⟩
  cases equal
  exact BasePool.Lies.refresh inRange.sited refreshed

theorem clearIdleBases (inRange : plan.InRange p bases) (known : r < p.vehicles.size) :
    ∃ count next, plan.clearIdleBases r = .ok (count, next) ∧ next.InRange p bases := by
  obtain ⟨route, found⟩ := inRange.exists_route known
  obtain ⟨count, next, done⟩ := inRange.conserved.clearIdleBases_answers found
  obtain ⟨vehicle, stops, here, changed, _⟩ := clearIdleBases_changes inRange.conserved done
  obtain ⟨_, _, _, handed⟩ := clearIdleBases_eq_ok.mp done
  exact ⟨count, next, done, inRange.changed here changed
    (Holding.clearIdleBases inRange.conserved done) (lies_handBackAll handed inRange.sited)⟩

theorem placeBase {b location : Nat} {duration : Duration} (inRange : plan.InRange p bases)
    (taken : plan.pool.isFree b = false) (site : location ∈ p.unloadLocations)
    (put : plan.placeBase b location duration = .ok next) : next.InRange p bases := by
  have conserved := Holding.placeBase inRange.conserved taken put
  obtain ⟨_, rfl⟩ := placeBase_eq_ok.mp put
  exact inRange.congr rfl conserved (BasePool.Lies.placed inRange.sited site duration)

theorem insertStop {position : Nat} {stop : Stop} (inRange : plan.InRange p bases)
    (done : plan.insertStop r position stop = .ok next) : next.InRange p bases := by
  have conserved := Holding.insertStop inRange.conserved done
  obtain ⟨vehicle, stops, found, changed, _⟩ := insertStop_itineraries done
  refine inRange.changed found changed conserved ?_
  cases stop with
  | destination job =>
      obtain ⟨_, _, _, _, rfl⟩ := insertStop_destination.mp done
      exact inRange.sited
  | base b =>
      obtain ⟨_, _, _, _, rfl⟩ := insertStop_base.mp done
      exact BasePool.Lies.without inRange.sited b

/-- A stop of a route is taken out. -/
theorem removeStop {position : Nat} (inRange : plan.InRange p bases) (visits : plan.Visits r stops)
    (inside : position < stops.length) :
    ∃ stop next, plan.removeStop r position = .ok (stop, next) ∧ next.InRange p bases ∧
      next.Visits r (stops.eraseIdx position) := by
  rcases visits with ⟨vehicle, there⟩
  obtain ⟨route, found, rfl, rfl⟩ := itineraries_eq_some.mp there
  have member : route.stops[position] ∈ route.stops := List.getElem_mem inside
  obtain ⟨next, handed⟩ := inRange.conserved.handBackAll_answers ⟨route.vehicle, there⟩
    [route.stops[position]]
    (plan.setRoute r { route with stops := route.stops.eraseIdx position }) rfl
    fun b among => by rwa [List.mem_singleton.mp among]
  have sited : next.pool.Sited p := lies_handBackAll handed inRange.sited
  have kept := (handBackAll_keeps handed).1
  rw [List.foldlM_cons, bind_eq_ok] at handed
  obtain ⟨_, handed, equal⟩ := handed
  cases equal
  have done := removeStop_eq_ok.mpr ⟨route, found, List.getElem?_eq_getElem inside, handed⟩
  have changed : next.itineraries =
      plan.itineraries.set r (route.vehicle, route.stops.eraseIdx position) := by
    rw [itineraries, kept, ← itineraries, itineraries_setRoute]
  refine ⟨_, next, done, inRange.changed there changed
    (Holding.removeStop inRange.conserved done) sited, route.vehicle, ?_⟩
  rw [changed, List.getElem?_set_self (List.getElem?_eq_some_iff.mp there).1]

theorem removeStops {position count : Nat} (inRange : plan.InRange p bases)
    (visits : plan.Visits r stops) (inside : position + count ≤ stops.length) :
    ∃ jobs next, Work.removeStops plan r position count = .ok (jobs, next) ∧
      next.InRange p bases := by
  induction count generalizing plan stops with
  | zero => exact ⟨[], plan, rfl, inRange⟩
  | succ count inductionHypothesis =>
      have last : position + count < stops.length := by omega
      obtain ⟨stop, shorter, head, kept, visitsNow⟩ := inRange.removeStop visits last
      obtain ⟨jobs, next, tail, keptOn⟩ := inductionHypothesis kept visitsNow (by
        rw [List.length_eraseIdx_of_lt (by omega)]
        omega)
      refine ⟨jobs ++ stop.job?.toList, next, ?_, keptOn⟩
      simp only [Work.removeStops, bind_eq_ok]
      exact ⟨_, head, _, tail, rfl⟩

/-- A job is taken out of the route that serves it. -/
theorem removeJob {job : Nat} {from? : Option Nat} (inRange : plan.InRange p bases)
    (done : plan.removeJob job = .ok (from?, next)) : next.InRange p bases := by
  have conserved := Holding.removeJob inRange.conserved done
  rcases removeJob_changes done with ⟨_, rfl, _⟩ |
    ⟨r, vehicle, stops, _, found, _, changed, pool, _⟩
  · exact inRange
  · exact inRange.changed found changed conserved (pool ▸ inRange.sited)

theorem removeJobs (inRange : plan.InRange p bases) (given : List Nat) :
    ∃ removed next, plan.removeJobs given = .ok (removed, next) ∧ next.InRange p bases := by
  obtain ⟨removed, next, done⟩ := removeJobs_answers plan given
  exact ⟨removed, next, done, removeJobs_keeps (InRange p bases)
    (fun _ _ _ _ kept step => kept.removeJob step) inRange done⟩

end InRange

end

/-! ### Refreshing -/

/-- A refresh of a route with a known vehicle, all stops of which are known. -/
theorem yields_refreshRoute {p : Problem α} {plan : Plan α} {r : Nat} {route : Route}
    (linked : p.Linked) (found : plan.routes[r]? = some route)
    (drives : route.vehicle < p.vehicles.size)
    (all : ∀ stop ∈ route.stops, p.HasStop plan.pool stop) :
    p.Yields (fun _ => True) (plan.refreshRoute p r) := by
  unfold Plan.refreshRoute
  rw [route_eq_ok.mpr found]
  apply (Route.yields_reschedule linked drives all).bind
  intro fresh done _
  obtain ⟨vehicle, same⟩ := Route.reschedule_eq_ok done
  have enters : p.Yields (fun _ => True) (plan.ledger.refresh p plan.pool r fresh) := by
    apply (RouteEntry.yields_derive linked (vehicle ▸ drives) (same ▸ all)
      (Route.length_visits done)).bind
    intro entry _ _
    exact .ok trivial
  apply enters.bind
  intro ledger _ _
  exact .ok trivial

namespace InRange

variable {p : Problem α} {bases r : Nat} {plan next : Plan α} {stops : List Stop}

theorem refreshRoute (linked : p.Linked) (inRange : plan.InRange p bases)
    (known : r < p.vehicles.size) : p.Yields (InRange p bases) (plan.refreshRoute p r) := by
  obtain ⟨route, found⟩ := inRange.exists_route known
  have refreshes := yields_refreshRoute linked found (inRange.drives found) fun _ =>
    inRange.hasStop linked (visits_of_route found)
  refine ⟨fun next done => ?_, refreshes.fails⟩
  obtain ⟨itineraries, pool, _⟩ := refreshRoute_keeps done
  exact inRange.congr itineraries (Holding.refreshRoute inRange.conserved done)
    (pool ▸ inRange.sited)

theorem refreshRoutes (linked : p.Linked) (inRange : plan.InRange p bases) :
    p.Yields (InRange p bases) (plan.refreshRoutes p) := by
  apply Yields.foldlM _ inRange
  intro r member before kept
  apply kept.refreshRoute linked
  rw [← inRange.length_routes]
  exact List.mem_range.mp member

theorem repairRoute (linked : p.Linked) (inRange : plan.InRange p bases)
    (known : r < p.vehicles.size) : p.Yields (InRange p bases) (plan.repairRoute p r) := by
  obtain ⟨count, cleared, done, kept⟩ := inRange.clearIdleBases known
  unfold Plan.repairRoute
  rw [done]
  exact kept.refreshRoute linked known

theorem ruin (linked : p.Linked) (inRange : plan.InRange p bases) (given : List Nat) :
    p.Yields (fun ruined => ruined.2.InRange p bases) (plan.ruin p given) := by
  obtain ⟨removed, shorter, done, kept⟩ := inRange.removeJobs given
  unfold Plan.ruin
  rw [done]
  have repairs : p.Yields (InRange p bases)
      ((shorter.routeIds.filter fun r => removed.any (·.2 = r)).foldlM (Plan.repairRoute p)
        shorter) := by
    apply Yields.foldlM _ kept
    intro r member before keeps
    apply keeps.repairRoute linked
    rw [← kept.length_routes]
    exact List.mem_range.mp (List.mem_filter.mp member).1
  apply repairs.bind
  intro last _ holds
  exact .ok holds

theorem resetRoute (linked : p.Linked) (inRange : plan.InRange p bases)
    (known : r < p.vehicles.size) : p.Yields (InRange p bases) (plan.resetRoute p r) := by
  obtain ⟨route, found⟩ := inRange.exists_route known
  obtain ⟨emptied, handed⟩ := inRange.conserved.handBackAll_answers
    (visits_of_route found) route.stops plan rfl fun _ => id
  have sited := lies_handBackAll handed inRange.sited
  refine ⟨fun next done => ?_, ?_⟩
  · obtain ⟨vehicle, stops, here, changed, _⟩ := resetRoute_changes inRange.conserved done
    refine inRange.changed here changed (Holding.resetRoute inRange.conserved done) ?_
    obtain ⟨_, again, _, foundAgain, handedAgain, _, _, rfl⟩ := resetRoute_eq_ok done
    cases found.symm.trans foundAgain
    cases handed.symm.trans handedAgain
    exact sited
  · refine Yields.fails (Q := fun _ => True) ?_
    unfold Plan.resetRoute
    rw [route_eq_ok.mpr found]
    show p.Yields _ (route.stops.foldlM handBack plan >>= _)
    rw [handed]
    have drives := inRange.drives found
    have reschedules : p.Yields (fun _ => True)
        (Route.reschedule p emptied.pool { route with stops := [], fixedDeparture := none }) :=
      Route.yields_reschedule linked drives fun stop member => absurd member List.not_mem_nil
    apply reschedules.bind
    intro cleared _ _
    exact .ok trivial

end InRange

end Plan

end Haulage

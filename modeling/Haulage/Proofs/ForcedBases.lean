/-
Module: Haulage.Proofs.ForcedBases
Purpose: What becomes of a route into which a base is put whatever it costs.  The base is the lowest one
  that no route visits.  It splits a trip at the first position that it may, and the two trips share
  what the one carried.
Main exports: Plan.LowestIdle, Plan.PutBetween, Plan.SplitsFirst, insertBase_splitsFirst
-/
import Haulage.Proofs.AllOrNothing
import Haulage.Proofs.CutTrips
import Haulage.Proofs.Exhaustive
import Haulage.Proofs.FirstPlaces
import Haulage.Proofs.StaleLedger

namespace Haulage

open Attempt Plan Problem

/-! ### Bases that no route visits -/

section

variable {α : Type} {plan pooled : Plan α} {b : Nat}

/-- The lowest base that no route visits. -/
structure Plan.LowestIdle (plan : Plan α) (b : Nat) : Prop where
  inside : b < plan.pool.size
  idle : plan.Nowhere (.base b)
  lowest : ∀ c < b, ¬plan.Nowhere (.base c)

/-- Once the pool is refreshed, the bases that no route visits are free and lie nowhere. -/
theorem Plan.isFree_refreshBases (done : plan.refreshBases = .ok pooled) :
    pooled.pool.size = plan.pool.size ∧ pooled.pool.Cleared ∧ ∀ c,
      pooled.pool.isFree c = true ↔ c < plan.pool.size ∧ plan.Nowhere (.base c) := by
  simp only [Plan.refreshBases, bind_eq_ok] at done
  rcases done with ⟨pool, refreshed, equal⟩
  cases equal
  obtain ⟨size, cleared, free⟩ := BasePool.refresh_eq_ok refreshed
  refine ⟨size, cleared, fun c => ?_⟩
  rw [free, mem_routed, nowhere_iff_routed, Nat.pos_iff_ne_zero, ne_eq, not_not]

/-- The lowest of them is then the lowest free base. -/
theorem Plan.LowestIdle.lowestFree? (lowest : plan.LowestIdle b)
    (done : plan.refreshBases = .ok pooled) : pooled.pool.lowestFree? = some b := by
  obtain ⟨size, _, free⟩ := isFree_refreshBases done
  rw [BasePool.lowestFree?, List.find?_range_eq_some, size]
  refine ⟨(free b).mpr ⟨lowest.inside, lowest.idle⟩, List.mem_range.mpr lowest.inside,
    fun c below => ?_⟩
  have taken : ¬pooled.pool.isFree c = true := fun isFree =>
    lowest.lowest c below ((free c).mp isFree).2
  simpa using taken

/-- No base is free then that a route visits. -/
theorem taken_of_refreshBases (done : plan.refreshBases = .ok pooled) (i : Nat) (stops : List Stop)
    (c : Nat) (visits : pooled.Visits i stops) (member : .base c ∈ stops) :
    pooled.pool.isFree c = false := by
  obtain ⟨_, _, free⟩ := isFree_refreshBases done
  rw [← Bool.not_eq_true, free]
  rintro ⟨_, idle⟩
  have visited := routed_pos_of_visits visits member
  rw [routed, (refreshBases_keeps done).1, ← routed, nowhere_iff_routed.mp idle] at visited
  exact Nat.lt_irrefl 0 visited

/-- Once the pool is refreshed, bases lie only where some lie that a route visits. -/
theorem lies_of_refreshBases {P : Nat → Prop} (done : plan.refreshBases = .ok pooled)
    (visited : ∀ i stops c location, plan.Visits i stops → .base c ∈ stops →
      plan.pool.locationOf c = some location → P location) : pooled.pool.Lies P := by
  obtain ⟨_, _, locations⟩ := refreshBases_keeps done
  obtain ⟨size, cleared, free⟩ := isFree_refreshBases done
  intro c location lies
  obtain ⟨e, listed, there⟩ := Option.bind_eq_some_iff.mp lies
  have inside : c < pooled.pool.size := (List.getElem?_eq_some_iff.mp listed).1
  by_cases idle : plan.Nowhere (.base c)
  · obtain ⟨_, again, isFree⟩ := BasePool.isFree_eq_true.mp ((free c).mpr ⟨size ▸ inside, idle⟩)
    cases listed.symm.trans again
    rw [(cleared e (List.mem_of_getElem? listed) isFree).1] at there
    cases there
  · simp only [Plan.Nowhere, not_forall, not_not] at idle
    obtain ⟨route, among, member⟩ := idle
    obtain ⟨i, found⟩ := List.mem_iff_getElem?.mp among
    have visits := visits_of_route found
    exact visited i _ c location visits member (locations i _ c visits member ▸ lies)

end

/-! ### Putting in the base -/

section

variable {α : Type} [Quantity α] {p : Problem α} {plan : Plan α} {r b location : Nat}
  {duration : Duration} {route : Route} {before after : List Stop}

/-- On a plan that is up to date every stop is known. -/
theorem Plan.UpToDate.hasRoute {P : Nat → Prop} (upToDate : plan.UpToDate p)
    (lies : plan.pool.Lies P) (inside : ∀ location, P location → location < p.points.size)
    (known : r < plan.routes.length) : plan.HasRoute p r := by
  obtain ⟨route, current⟩ := upToDate r known
  refine ⟨route.vehicle, route.stops, itineraries_of_route current.found, current.drives,
    fun stop member => ?_⟩
  obtain ⟨_, there⟩ := current.stopLocation member
  exact hasStop_of_stopLocation lies inside there

/-- A base was put behind some stops of a route, at a location.  Nothing else was changed but times
and the ledger. -/
structure Plan.PutBetween (r b location vehicle : Nat) (before after : List Stop)
    (plan closed : Plan α) : Prop where
  changes : ChangesAt r plan closed
  itineraries_eq : closed.itineraries =
    plan.itineraries.set r (vehicle, before ++ .base b :: after)
  visits : closed.Visits r (before ++ .base b :: after)
  placed : closed.pool.locationOf b = some location
  kept : ∀ c, .base c ∈ before ++ after → closed.pool.locationOf c = plan.pool.locationOf c

omit [Quantity α] in
/-- A free base is put there, where no base is free that a route visits. -/
theorem Plan.closing_putBetween
    (taken : ∀ i stops c, plan.Visits i stops → .base c ∈ stops → plan.pool.isFree c = false)
    (found : plan.routes[r]? = some route) (split : route.stops = before ++ after)
    (free : plan.pool.isFree b = true) (known : plan.HasRoute p r)
    (inTables : location < p.points.size) (duration : Duration) :
    plan.PutBetween r b location route.vehicle before after
        (plan.closing r route before.length b location duration) ∧
      (plan.closing r route before.length b location duration).HasRoute p r := by
  have inside : before.length ≤ route.stops.length := by
    rw [split, List.length_append]
    exact Nat.le_add_right _ _
  obtain ⟨inserted, inserts, places⟩ := closing_answers found inside free
  obtain ⟨puts, lies, stands⟩ := inserts_base found split inserts places
  have visits : plan.Visits r (before ++ after) := split ▸ visits_of_route found
  refine ⟨⟨⟨puts.toChangesOnly, ?_⟩, ?_, visits_of_route puts.found, ?_, ?_⟩,
    known.closes inTables inserts places⟩
  · intro i stops c _ visits member
    exact puts.bases c (taken i stops c visits member)
  · show (plan.setRoute r _).itineraries = _
    rw [itineraries_setRoute, split, insertIdx_between]
  · rw [BasePool.locationOf_eq stands]
    rfl
  · intro c member
    exact BasePool.locationOf_congr (puts.bases c (taken r _ c visits member))

theorem Plan.PutBetween.refreshRoute {vehicle : Nat} {closed next : Plan α}
    (puts : plan.PutBetween r b location vehicle before after closed)
    (done : closed.refreshRoute p r = .ok next) :
    plan.PutBetween r b location vehicle before after next := by
  obtain ⟨itineraries, pool, _⟩ := refreshRoute_keeps done
  refine ⟨puts.changes.trans (.refreshRoute done), itineraries.trans puts.itineraries_eq, ?_, ?_, ?_⟩
  · obtain ⟨home, found⟩ := puts.visits
    exact ⟨home, itineraries ▸ found⟩
  · rw [pool, puts.placed]
  · intro c member
    rw [pool, puts.kept c member]

/-- When the proposal is taken up, the base is put there, and everything is up to date again. -/
theorem Fill.commit_putsBetween {volumes : Volumes α} (linked : p.Linked)
    (upToDate : plan.UpToDate p) (sited : plan.pool.Sited p) (tracks : volumes.Tracks p)
    (taken : ∀ i stops c, plan.Visits i stops → .base c ∈ stops → plan.pool.isFree c = false)
    (found : plan.routes[r]? = some route) (split : route.stops = before ++ after)
    (free : plan.pool.isFree b = true) (site : location ∈ p.unloadLocations) (departure : Instant) :
    Ends (Fill.commit p (.closing r route departure before b location duration))
      (fun _ next => next.plan.UpToDate p ∧
        plan.PutBetween r b location route.vehicle before after next.plan)
      (fun e _ => p.Excuses e) ⟨plan, volumes⟩ := by
  have inside : before.length ≤ route.stops.length := by
    rw [split, List.length_append]
    exact Nat.le_add_right _ _
  have known : plan.HasRoute p r :=
    upToDate.hasRoute sited linked.sites (List.getElem?_eq_some_iff.mp found).1
  obtain ⟨puts, knownNow⟩ := closing_putBetween taken found split free known
    (linked.sites location site) duration
  have refreshes := knownNow.yields_refreshRoute linked
  have commits : Fill.commit p (.closing r route departure before b location duration)
      ⟨plan, volumes⟩ = _ := Fill.commit_closing rfl found inside free
  rw [Ends, commits]
  show Ends _ _ _ _
  simp only [ends_bind, ends_ofResult, ends_set, Work.onVolumes, ends_within]
  refine ⟨fun next done => ?_, refreshes.fails⟩
  have now := upToDate.refreshed puts.changes done
  have sitedNow : next.pool.Sited p := by
    rw [(refreshRoute_keeps done).2.1]
    exact (BasePool.Lies.without sited b).placed site duration
  apply (tracks.rebuild sitedNow now.agrees).mono
  · exact fun _ _ _ => ⟨now, puts.refreshRoute done⟩
  · exact fun _ _ impossible => impossible.elim

/-- The base cuts the trip in two. -/
theorem Plan.PutBetween.cuts {α : Type} {r b location vehicle : Nat} {before after : List Stop}
    {plan next : Plan α} (puts : plan.PutBetween r b location vehicle before after next)
    (visits : plan.Visits r (before ++ after)) :
    plan.Cuts r (basesIn before) b location (openJobs before) next :=
  cuts_of_changesAt puts.changes visits puts.visits puts.placed puts.kept

end

/-! ### What becomes of the trip -/

/-- A base was put where a trip of a route could be split first, at a location that absorbs what it
unloads.  The trip up to there carries what it had loaded by then, and the next one carries the rest. -/
structure Plan.SplitsFirst (p : Problem Rat) (plan : Plan Rat) (provider : LocationProvider Rat)
    (v : Vehicle Rat) (r b : Nat) (route : Route) (before after : List Stop) (location : Nat)
    (next : Plan Rat) : Prop
    extends plan.FirstSplit p provider v route.stops before after location where
  itineraries_eq : next.itineraries =
    plan.itineraries.set r (route.vehicle, before ++ .base b :: after)
  cuts : plan.Cuts r (basesIn before) b location (openJobs before) next
  load_eq : next.ledger.load r (basesIn before) = p.demandOf (openJobs before)
  rest_eq : ∀ i, (plan.ledger.load r (basesIn before)).get i =
    (next.ledger.load r (basesIn before)).get i + (next.ledger.load r (basesIn before + 1)).get i
  fresh : next.refreshRoutes p = .ok next

section

variable {p : Problem Rat} {settings : Settings Rat} {provider : LocationProvider Rat}
  {plan pooled next : Plan Rat} {v : Vehicle Rat} {r b trip location : Nat} {route : Route}
  {departure : Instant} {before after stops : List Stop} {place : Option Proposal}

theorem Plan.Cuts.of_refreshBases {first : List Nat} (done : plan.refreshBases = .ok pooled)
    (cuts : pooled.Cuts r trip b location first next) : plan.Cuts r trip b location first next := by
  obtain ⟨itineraries, _, locations⟩ := refreshBases_keeps done
  have same (i k : Nat) : pooled.tripAt i k = plan.tripAt i k :=
    tripAt_congr (by rw [stopsOn, stopsOn, itineraries]) (locations i) k
  constructor
  · exact fun i early => (cuts.early i early).trans (same r i)
  · exact cuts.closed
  · exact (same r trip).symm.trans cuts.rest
  · exact fun i late => (cuts.behind i late).trans (same r i)
  · exact fun other i apart => (cuts.elsewhere other i apart).trans (same other i)

theorem Plan.Agrees.load_eq_tripAt (agrees : plan.Agrees p r) (visits : plan.Visits r stops)
    (trip : Nat) : plan.ledger.load r trip = p.demandOf (plan.tripAt r trip).1 := by
  rw [agrees.load_eq visits, visits.tripAt_eq]
  rfl

/-- A trip that is cut in two leaves its load to the two of them. -/
theorem Plan.Cuts.load_eq {first : List Nat} (cuts : plan.Cuts r trip b location first next)
    (agrees : plan.Agrees p r) (agreesNext : next.Agrees p r) (visits : plan.Visits r stops)
    {stopsNext : List Stop} (visitsNext : next.Visits r stopsNext) :
    next.ledger.load r trip = p.demandOf first ∧
      ∀ i, (plan.ledger.load r trip).get i =
        (next.ledger.load r trip).get i + (next.ledger.load r (trip + 1)).get i := by
  rw [agreesNext.load_eq_tripAt visitsNext, agreesNext.load_eq_tripAt visitsNext,
    agrees.load_eq_tripAt visits, cuts.closed, cuts.rest]
  refine ⟨rfl, fun i => ?_⟩
  simp only [get_demandOf, List.map_append, List.sum_append]

theorem Plan.PutBetween.splitsFirst (done : plan.refreshBases = .ok pooled)
    (upToDate : plan.UpToDate p) (found : plan.routes[r]? = some route)
    (split : plan.FirstSplit p provider v route.stops before after location)
    (puts : pooled.PutBetween r b location route.vehicle before after next)
    (upToDateNext : next.UpToDate p) :
    plan.SplitsFirst p provider v r b route before after location next := by
  obtain ⟨itineraries, _, _⟩ := refreshBases_keeps done
  have visits : plan.Visits r (before ++ after) := split.stops_eq ▸ visits_of_route found
  have visitsPooled : pooled.Visits r (before ++ after) := by
    obtain ⟨home, there⟩ := visits
    exact ⟨home, itineraries ▸ there⟩
  have cuts := (puts.cuts visitsPooled).of_refreshBases done
  obtain ⟨load, rest⟩ := cuts.load_eq (upToDate.agrees r) (upToDateNext.agrees r) visits puts.visits
  exact ⟨split, itineraries ▸ puts.itineraries_eq, cuts, load, rest,
    refreshRoutes_eq_self.mpr upToDateNext⟩

/-- Counted from nothing, the volumes are those of the closed trips. -/
theorem Plan.UpToDate.rebuild_counts (upToDate : plan.UpToDate p) (sited : plan.pool.Sited p) :
    Ends (Volumes.rebuild plan)
      (fun _ counted => counted.Follows p ∧ counted.Counts (plan.unloads p)) (fun _ _ => False)
      (.ofSites p.sites) := by
  have counts := (Plan.rebuild_counts upToDate.agrees).and
    ((Volumes.tracks_ofSites p).rebuild sited upToDate.agrees)
  apply counts.mono
  · rintro _ counted ⟨⟨limits, counts⟩, _⟩
    exact ⟨limits.follows (Volumes.follows_ofSites p), counts⟩
  · exact fun _ _ failed => failed.2

/-- The lowest free base is put where a trip may be split first. -/
theorem Fill.placeLowest_first (linked : p.Linked) (reliable : settings.Reliable p)
    (upToDate : plan.UpToDate p) (sited : plan.pool.Sited p)
    (taken : ∀ i stops c, plan.Visits i stops → .base c ∈ stops → plan.pool.isFree c = false)
    (found : plan.routes[r]? = some route) (drives : p.vehicle route.vehicle = .ok v)
    (lowest : plan.pool.lowestFree? = some b) :
    Ends (Fill.placeLowest p settings r plan)
      (fun place f =>
        (place = none ∧ (∀ position, ¬plan.MaySplit p settings.provider v route.stops position) ∧
          f.work.plan = plan) ∨
        ∃ departure before after location duration, route.departure p = .ok departure ∧
          place = some (.closing r route departure before b location duration) ∧
          plan.FirstSplit p settings.provider v route.stops before after location ∧
          plan.PutBetween r b location route.vehicle before after f.work.plan ∧
          f.work.plan.UpToDate p)
      (fun e _ => p.Excuses e) (.start p plan) := by
  have free := BasePool.isFree_of_lowestFree? lowest
  have known : route.vehicle < p.vehicles.size := by
    obtain ⟨_, current⟩ := upToDate r (List.getElem?_eq_some_iff.mp found).1
    cases found.symm.trans current.found
    exact current.drives
  simp only [Fill.placeLowest, Fill.onWork, Work.onVolumes, ends_bind, ends_get, ends_within, lowest,
    ends_ofResult, Plan.route_eq_ok.mpr found]
  apply (upToDate.rebuild_counts sited).mono
  · rintro _ counted ⟨follows, counts⟩
    refine ⟨?_, by rintro _ ⟨⟩⟩
    rintro _ ⟨⟩
    refine ⟨fun departure departs => ?_, (Route.yields_departure known).fails⟩
    have guided : (settings.survey p plan counted true).Guided (· ∈ p.unloadLocations) :=
      ⟨⟨fun _ inRange => reliable.yields_offers inRange, reliable.times⟩, linked, linked.sites,
        follows.sites⟩
    have knows : (settings.survey p plan counted true).Knows (· ∈ p.unloadLocations) r route :=
      Survey.knows_of_upToDate upToDate sited linked.sites found
    have searches := knows.yields_firstPlace guided free known departure
    refine ⟨fun place searched => ?_, searches.fails⟩
    have first := Survey.firstPlace_first (upToDate.agrees r) counts follows reliable.sites found
      drives searched
    cases first with
    | nowhere never => exact .inl ⟨rfl, never, rfl⟩
    | @behind before after location duration split =>
        obtain ⟨_, _, _, _, offered, _, _, _, offers, among⟩ := split.splits.offered
        have site := reliable.sites location ⟨_, _, offers, among⟩
        simp only [ends_bind, ends_within, ends_pure]
        apply (Fill.commit_putsBetween linked upToDate sited follows.sites taken found split.stops_eq
          free site departure).mono
        · rintro _ next ⟨now, puts⟩
          exact .inr ⟨departure, before, after, location, duration, departs, rfl, split, puts, now⟩
        · exact fun _ _ excused => excused
  · exact fun _ _ impossible => impossible.elim

end

/-- Where nothing is out of date and no routed base lies elsewhere than at a site, and only sites are
offered: the lowest base that no route visits is put into a route at the first position behind a job
and not in front of a base at which some location that is offered absorbs the load of the trip up to
there, and nowhere if there is no such position.  The trip that it closes carries that load, the next
one has the other jobs and the base that the trip had, if any, and no other trip is changed.  Only
what is excused makes this fail. -/
theorem insertBase_splitsFirst {p : Problem Rat} {settings : Settings Rat} {plan : Plan Rat}
    {r b : Nat} {route : Route} {v : Vehicle Rat} (linked : p.Linked)
    (reliable : settings.Reliable p) (fresh : plan.refreshRoutes p = .ok plan)
    (sited : ∀ i stops c location, plan.Visits i stops → .base c ∈ stops →
      plan.pool.locationOf c = some location → location ∈ p.unloadLocations)
    (found : plan.routes[r]? = some route) (drives : p.vehicle route.vehicle = .ok v)
    (lowest : plan.LowestIdle b) :
    Ends (Fill.insertBase p settings r)
      (fun place f =>
        (place = none ∧ (∀ position, ¬plan.MaySplit p settings.provider v route.stops position) ∧
          plan.refreshBases = .ok f.work.plan) ∨
        ∃ departure before after location duration, route.departure p = .ok departure ∧
          place = some (.closing r route departure before b location duration) ∧
          plan.SplitsFirst p settings.provider v r b route before after location f.work.plan)
      (fun e _ => p.Excuses e) (.start p plan) := by
  have upToDate := refreshRoutes_eq_self.mp fresh
  obtain ⟨pooled, done⟩ := upToDate.refreshBases_answers
  have upToDatePooled := upToDate.refreshBases done
  have foundPooled : pooled.routes[r]? = some route :=
    (sameRoute_refreshBases done).route_eq.trans found
  have inside : r < pooled.routes.length := (List.getElem?_eq_some_iff.mp foundPooled).1
  have refreshed : pooled.refreshRoute p r = .ok pooled := by
    obtain ⟨_, current⟩ := upToDatePooled r inside
    exact current.refreshRoute
  have visits := visits_of_route found
  rw [Fill.insertBase_eq]
  simp only [ends_bind, Fill.ends_updatePlan, ends_get]
  refine ⟨fun next again => ?_, fun e failed => ?_⟩
  · cases done.symm.trans again
    refine ⟨fun next again => ?_, fun e failed => ?_⟩
    · cases refreshed.symm.trans again
      have places := Fill.placeLowest_first linked reliable upToDatePooled
        (lies_of_refreshBases done sited) (taken_of_refreshBases done) foundPooled drives
        (lowest.lowestFree? done)
      apply places.mono
      · rintro _ f (⟨rfl, never, same⟩ | ⟨departure, before, after, location, duration, departs, rfl,
          split, puts, now⟩)
        · refine .inl ⟨rfl, fun position may => ?_, same ▸ done⟩
          exact never position ((maySplit_refreshBases done visits position).mpr may)
        · exact .inr ⟨departure, before, after, location, duration, departs, rfl,
            puts.splitsFirst done upToDate found (split.of_refreshBases done visits) now⟩
      · exact fun _ _ excused => excused
    · cases refreshed.symm.trans failed
  · cases done.symm.trans failed

/-- When the first route is emptied, the second trip is split behind its first job. -/
theorem insertBase_splitsFirst_twoSides :
    let settings := Settings.forProblem twoSides .standard
    ∃ start plan route f, Plan.reach twoSides [.recreate settings, .resetRoute 0] = .ok start ∧
      start.refreshRoutes twoSides = .ok plan ∧ plan.LowestIdle 0 ∧
      plan.routes[1]? = some route ∧
      Fill.insertBase twoSides settings 1 (.start twoSides plan) =
        .ok (some (.closing 1 route ⟨0⟩ [.destination 1] 0 3 .zero)) f ∧
      plan.SplitsFirst twoSides settings.provider twoSides.vehicles[1] 1 0 route [.destination 1]
        [.destination 2, .base 1] 3 f.work.plan := by
  intro settings
  have run : (Plan.reach twoSides [.recreate settings, .resetRoute 0] >>= fun start =>
      start.refreshRoutes twoSides >>= fun plan =>
      answer (Fill.insertBase twoSides settings 1 (.start twoSides plan)) >>= fun place =>
      .ok (decide (plan.itineraries = [(0, []), (1, [.destination 1, .destination 2, .base 1])] ∧
        0 < plan.pool.size ∧ plan.pool.locationOf 1 = some 3 ∧
        place = some ⟨1, 1, 0, 1, ⟨0⟩, [.insert 1 1 (.base 0), .place 0 3 .zero]⟩))) =
      .ok true := by decide +kernel
  simp only [bind_eq_ok, answer_eq_ok, Except.ok.injEq, decide_eq_true_eq] at run
  obtain ⟨start, reached, plan, refreshed, _, ⟨f, done⟩, itineraries, size, lies, rfl⟩ := run
  have sited : ∀ i stops c location, plan.Visits i stops → .base c ∈ stops →
      plan.pool.locationOf c = some location → location ∈ twoSides.unloadLocations := by
    rintro i stops c location ⟨home, there⟩ member liesThere
    have among := List.mem_of_getElem? there
    simp only [itineraries, List.mem_cons, List.not_mem_nil, or_false, Prod.mk.injEq] at among
    rcases among with ⟨_, rfl⟩ | ⟨_, rfl⟩
    · cases member
    · obtain rfl : c = 1 := by simpa using member
      cases lies.symm.trans liesThere
      decide
  have idle : plan.Nowhere (.base 0) := by
    rw [nowhere_iff_routed, routed, itineraries]
    rfl
  have lowest : plan.LowestIdle 0 := ⟨size, idle, fun c below => absurd below (Nat.not_lt_zero c)⟩
  have second : plan.itineraries[1]? = some (1, [.destination 1, .destination 2, .base 1]) := by
    rw [itineraries]
    rfl
  obtain ⟨route, found, vehicle, stops⟩ := itineraries_eq_some.mp second
  have drives : twoSides.vehicle route.vehicle = .ok twoSides.vehicles[1] := by
    rw [vehicle]
    rfl
  have ends := insertBase_splitsFirst (ProblemParts.linked_of_build build_twoSides)
    (reliable_forProblem twoSides .standard)
    (refreshRoutes_eq_self.mpr (upToDate_of_refreshRoutes refreshed)) sited found drives lowest
  rw [Ends, done] at ends
  obtain ⟨impossible, _⟩ | ⟨departure, before, after, location, duration, _, place, splits⟩ := ends
  · cases impossible
  · have parts : [.destination 1] ++ [.destination 2, .base 1] = before ++ after :=
      stops.symm.trans splits.stops_eq
    simp only [Proposal.closing, Option.some.injEq, Proposal.mk.injEq, List.cons.injEq,
      Change.place.injEq] at place
    obtain ⟨_, length, _, _, rfl, _, ⟨_, rfl, rfl⟩, _⟩ := place
    obtain ⟨rfl, rfl⟩ := List.append_inj parts length
    refine ⟨start, plan, route, f, reached, refreshed, lowest, found, ?_, splits⟩
    rw [done, Proposal.closing, vehicle]
    rfl

end Haulage

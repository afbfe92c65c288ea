/-
Module: Haulage.Proofs.Realised
Purpose: What a proposal leads to when it is taken up.  The stops stand where it put them, and the
  route comes to them, and to the stop behind them, at the times that were worked out in the gap.
Main exports: Route.arrivalAt, Trial.baseArrival, Proposal.Realised, Survey.Proposes,
  commit_realises
-/
import Haulage.Proofs.Computed
import Haulage.Proofs.Fresh

namespace Haulage

variable {α : Type} [Quantity α]

open Attempt Plan

/-- When a route comes to the stop at a position, or to its end. -/
def Route.arrivalAt (route : Route) (i : Nat) : Instant :=
  (route.visits[i]?.map (·.arrival)).getD route.endArrival

/-- The first stop that a proposal inserts.  A base comes with the location that it is placed at. -/
def Proposal.newStop? (q : Proposal) : Option NewStop :=
  match q.changes with
  | .insert _ _ (.destination job) :: _ => some (.destination job)
  | [.insert _ _ (.base b), .place _ location duration] => some (.base b location duration)
  | _ => none

/-- The stops that a proposal inserts. -/
def Proposal.stops (q : Proposal) : List Stop := q.changes.filterMap (·.inserted?)

/-- When a base that is placed at a location is reached, by what is worked out in a gap.  A base that
splits a trip goes into the gap itself, and one that closes a new trip goes behind the job. -/
def Trial.baseArrival (p : Problem α) (t : Trial α) (location : Nat) : Except Failure Instant :=
  match t.newStop with
  | .base _ _ _ => t.arrival p
  | .destination job => do
    p.arrival t.vehicle (some (← p.destination job).location) (some location) (← t.leaving p)

/-! ### Times around a gap -/

section

variable {p : Problem α} {pool : BasePool} {v : Vehicle α} {place ahead : Option Nat}
  {leaving : Instant} {route : Route} {stops : List Stop}

omit [Quantity α] in
theorem Route.arrivalAt_append {early late : List Visit} (visits : route.visits = early ++ late) :
    route.arrivalAt early.length = (late.head?.map (·.arrival)).getD route.endArrival := by
  rw [arrivalAt, visits, List.getElem?_append_right (Nat.le_refl _), Nat.sub_self,
    ← List.head?_eq_getElem?]

/-- What a vehicle heads for is reached next. -/
theorem Route.arrivalAt_of_headsFor {early late : List Visit} {last : Option Nat} {left : Instant}
    (visits : route.visits = early ++ late)
    (visited : visitsFrom p pool v place leaving stops = .ok (late, last, left))
    (ends : p.arrival v last v.endLocation left = .ok route.endArrival)
    (heads : p.headsFor pool v place stops = .ok ahead) :
    p.arrival v place ahead leaving = .ok (route.arrivalAt early.length) := by
  rw [arrivalAt_append visits]
  cases stops with
  | nil =>
      cases visited
      cases heads
      exact ends
  | cons stop rest =>
      simp only [visitsFrom, bind_eq_ok] at visited
      rcases visited with ⟨lies, there, arrival, arrives, leaving, _, waiting, _, ⟨later, _, _⟩, _,
        equal⟩
      cases equal
      rw [Problem.headsFor, there] at heads
      cases heads
      exact arrives

end

/-- A new stop stands in a plan as it was tried out. -/
structure NewStop.Stands (p : Problem α) (pool : BasePool) (new : NewStop) (location : Nat) : Prop
    where
  lies : p.stopLocation pool new.stop = .ok (some location)
  location_eq : new.location p = .ok location
  ends : ∀ arrival, p.endOfStop pool new.stop arrival = new.endOfService p arrival

section

variable {p : Problem α} {pool : BasePool} {plan other : Plan α} {r location : Nat} {new : NewStop}

omit [Quantity α] in
theorem NewStop.stands_destination {job : Nat} {d : Destination α}
    (served : p.destination job = .ok d) : (destination job).Stands p pool d.location := by
  refine ⟨stopLocation_destination.mpr ⟨d, served, rfl⟩, ?_, fun arrival => rfl⟩
  rw [NewStop.location, served]
  rfl

omit [Quantity α] in
theorem NewStop.stands_base {b : Nat} {lies : Base} {duration : Duration}
    (placed : pool.base b = .ok (lies.place location duration)) :
    (base b location duration).Stands p pool location := by
  refine ⟨?_, rfl, fun arrival => ?_⟩
  · rw [NewStop.stop, Problem.stopLocation, placed]
    rfl
  · rw [NewStop.stop, Problem.endOfStop, placed]
    rfl

/-- A vehicle that heads for a new stop reaches and leaves it as it was worked out. -/
theorem Trial.reaches {t : Trial α} {more : List Stop} {late : List Visit} {last : Option Nat}
    {left : Instant} (stands : t.newStop.Stands p pool location)
    (visited : Route.visitsFrom p pool t.vehicle t.gap.previousLocation t.gap.previousDeparture
      (t.newStop.stop :: more) = .ok (late, last, left)) :
    ∃ visit later, late = visit :: later ∧ t.arrival p = .ok visit.arrival ∧
      t.leaving p = .ok visit.departure ∧
      Route.visitsFrom p pool t.vehicle (some location) visit.departure more =
        .ok (later, last, left) := by
  simp only [Route.visitsFrom, stands.lies, stands.ends, bind_eq_ok, Except.ok.injEq,
    exists_eq_left'] at visited
  rcases visited with ⟨arrival, arrives, leaving, leaves, waiting, _, ⟨later, _, _⟩, behind, equal⟩
  cases equal
  have reached : t.arrival p = .ok arrival := by
    simp only [Trial.arrival, stands.location_eq]
    exact arrives
  refine ⟨_, later, rfl, reached, ?_, behind⟩
  simp only [Trial.leaving, reached]
  exact leaves

/-- What was worked out in a gap of a route holds of the route with a new stop in the gap, and others
behind it. -/
theorem Trial.reaches_stop {t : Trial α} {route now : Route} {before after more : List Stop}
    {departure : Instant} (current : plan.Current p r route) (again : other.Current p r now)
    (vehicle : now.vehicle = route.vehicle) (fixed : now.fixedDeparture = route.fixedDeparture)
    (driven : p.vehicle route.vehicle = .ok t.vehicle) (departs : route.departure p = .ok departure)
    (split : route.stops = before ++ after)
    (stops : now.stops = before ++ t.newStop.stop :: (more ++ after))
    (same : ∀ b, .base b ∈ before → other.pool.base b = plan.pool.base b)
    (met : t.gap.Met p plan.pool t.vehicle departure before after)
    (stands : t.newStop.Stands p other.pool location) :
    p.arrival t.vehicle t.gap.previousLocation t.gap.nextLocation t.gap.previousDeparture =
        .ok (route.arrivalAt before.length) ∧
      t.arrival p = .ok (now.arrivalAt before.length) ∧
      ∃ leaving, t.leaving p = .ok leaving ∧
        ∀ ahead, p.headsFor other.pool t.vehicle (some location) (more ++ after) = .ok ahead →
          p.arrival t.vehicle (some location) ahead leaving =
            .ok (now.arrivalAt (before.length + 1)) := by
  obtain ⟨visits, comes⟩ := met.comes
  have front : route.Departs p plan.pool before t.vehicle visits t.gap.previousLocation
      t.gap.previousDeparture := ⟨driven, departure, departs, comes⟩
  obtain ⟨_, _, _, _, old, _, _, departsThere, visitedOld, endsOld, visitsOld⟩ := current.split split
  obtain ⟨rfl, rfl, rfl, rfl⟩ := front.unique departsThere
  obtain ⟨_, _, _, _, late, _, _, departsNow, visited, ends, visitsNow⟩ := again.split stops
  obtain ⟨rfl, rfl, rfl, rfl⟩ := (front.congr vehicle fixed same).unique departsNow
  rw [← front.length_eq]
  refine ⟨Route.arrivalAt_of_headsFor visitsOld visitedOld endsOld met.heads, ?_⟩
  obtain ⟨visit, later, rfl, arrives, leaves, behind⟩ := Trial.reaches stands visited
  constructor
  · rw [Route.arrivalAt_append visitsNow]
    exact arrives
  · refine ⟨visit.departure, leaves, fun ahead heads => ?_⟩
    have parts : now.visits = (visits ++ [visit]) ++ later := by simp [visitsNow]
    have reached := Route.arrivalAt_of_headsFor parts behind ends heads
    rwa [List.length_append, List.length_singleton] at reached

end

/-! ### Taking up a proposal -/

/-- What the calculators propose for a route: where a job is served, or where a base is put. -/
inductive Survey.Proposes (s : Survey α) (r vehicle : Nat) (departure : Instant) : Proposal → Prop
    where
  | job {job : Nat} {known : Bound α} {offer : Offer α}
      (done : s.cheapest r job vehicle departure known = .ok (some offer)) :
      Proposes s r vehicle departure offer.proposal
  | base {b : Nat} {q : Proposal} (done : s.firstPlace r b vehicle departure = .ok (some q)) :
      Proposes s r vehicle departure q

/-- The stops of a proposal stand where it puts them, in the trip that it names.  The first one is
reached as it was tried out.  If it is the only one, what comes behind it is reached later by as much
as was worked out.  All else stays as it was. -/
structure Proposal.TakenUp (s : Survey α) (r : Nat) (route : Route) (q : Proposal) (t : Trial α)
    (next : Plan α) (now : Route) : Prop where
  found : next.routes[r]? = some now
  times : now.reschedule s.problem next.pool = .ok now
  vehicle_eq : now.vehicle = route.vehicle
  departure_eq : now.fixedDeparture = route.fixedDeparture
  newStop : q.newStop? = some t.newStop
  stop_eq : now.stops[q.position]? = some t.newStop.stop
  stops_eq : now.stops = route.stops.take q.position ++ q.stops ++ route.stops.drop q.position
  trip_eq : basesIn (now.stops.take q.position) = q.trip
  arrival_eq : t.arrival s.problem = .ok (now.arrivalAt q.position)
  delay_eq : q.stops.length = 1 → t.delay s.problem =
    .ok ((now.arrivalAt (q.position + 1)).since (route.arrivalAt q.position)).seconds
  bases : ∀ b, .base b ∈ route.stops → next.pool.base b = s.plan.pool.base b
  others : ∀ i, r ≠ i → SameRoute i s.plan next

/-- Beyond that, a base that was placed is reached when it was worked out to be, and takes as long as
the service times said for this time. -/
structure Proposal.Realised (s : Survey α) (r : Nat) (route : Route) (q : Proposal) (t : Trial α)
    (next : Plan α) (now : Route) : Prop extends Proposal.TakenUp s r route q t next now where
  base_eq : ∀ b location duration, .place b location duration ∈ q.changes →
    let last := q.position + (q.stops.length - 1)
    now.stops[last]? = some (.base b) ∧
      (∃ lies : Base, next.pool.base b = .ok (lies.place location duration)) ∧
      t.baseArrival s.problem location = .ok (now.arrivalAt last) ∧
      s.serviceTimes t.vehicle location (now.arrivalAt last) = .ok duration

section

variable {s : Survey α} {r : Nat} {route : Route} {departure : Instant} {q : Proposal}
  {before after : List Stop} {changed next : Plan α} {location : Nat}

/-- Stops that were put into a gap as they were tried out there. -/
theorem takenUp_of_inserts {t : Trial α} (more : List Stop)
    (taken : ∀ i stops b, s.plan.Visits i stops → .base b ∈ stops → s.plan.pool.isFree b = false)
    (current : s.plan.Current s.problem r route) (locates : s.plan.pool.Locates route.stops)
    (driven : s.problem.vehicle route.vehicle = .ok t.vehicle)
    (departs : route.departure s.problem = .ok departure) (split : route.stops = before ++ after)
    (met : t.gap.Met s.problem s.plan.pool t.vehicle departure before after)
    (newStop : q.newStop? = some t.newStop) (position : q.position = t.gap.position)
    (trip : q.trip = t.gap.trip) (stops : q.stops = t.newStop.stop :: more)
    (inserts : Inserts r route (before ++ t.newStop.stop :: (more ++ after)) s.plan changed)
    (stands : t.newStop.Stands s.problem changed.pool location)
    (refreshed : changed.refreshRoute s.problem r = .ok next) :
    ∃ now, q.TakenUp s r route t next now ∧ ∃ leaving, t.leaving s.problem = .ok leaving ∧
      ∀ ahead, s.problem.headsFor next.pool t.vehicle (some location) (more ++ after) = .ok ahead →
        s.problem.arrival t.vehicle (some location) ahead leaving =
          .ok (now.arrivalAt (q.position + 1)) := by
  obtain ⟨now, currentNow, vehicle, fixed, stopsNow⟩ := current_refreshRoute inserts.found refreshed
  have pool : next.pool = changed.pool := (refreshRoute_keeps refreshed).2.1
  have bases : ∀ b, .base b ∈ route.stops → next.pool.base b = s.plan.pool.base b := by
    intro b member
    rw [pool]
    exact inserts.bases b (taken r route.stops b (visits_of_route current.found) member)
  have ahead : ∀ b, .base b ∈ before → next.pool.base b = s.plan.pool.base b := by
    intro b member
    exact bases b (split ▸ List.mem_append_left after member)
  obtain ⟨wasReached, arrives, leaving, leaves, later⟩ := Trial.reaches_stop current currentNow vehicle
    fixed driven departs split stopsNow ahead met (pool ▸ stands)
  have place : q.position = before.length := position.trans met.position_eq
  have front : now.stops.take q.position = before := by rw [stopsNow, place, List.take_left]
  refine ⟨now, ⟨currentNow.found, currentNow.times, vehicle, fixed, newStop, ?_, ?_, ?_, ?_, ?_, bases,
    fun i apart => ?_⟩, leaving, leaves, ?_⟩
  · rw [stopsNow, place, List.getElem?_append_right (Nat.le_refl _), Nat.sub_self]
    rfl
  · rw [stopsNow, stops, split, place, List.take_left, List.drop_left]
    simp
  · rw [front, trip, met.trip_eq]
  · rw [place]
    exact arrives
  · intro single
    have alone : more = [] := by
      rw [stops, List.length_cons] at single
      exact List.length_eq_zero_iff.mp (Nat.succ.inj single)
    subst alone
    have behind : ∀ b, .base b ∈ after → next.pool.base b = s.plan.pool.base b := by
      intro b member
      exact bases b (split ▸ List.mem_append_right before member)
    have located : s.plan.pool.Locates after := by
      intro b member
      exact locates b (split ▸ List.mem_append_right before member)
    have reached := later _ (located.headsFor behind met.heads)
    simp only [Trial.delay, bind_eq_ok]
    refine ⟨_, wasReached, location, stands.location_eq, leaving, leaves, _, reached, ?_⟩
    rw [place]
  · refine ⟨?_, fun stops b visits member => ?_, ?_, ?_⟩
    · exact ((changesOnly_refreshRoute refreshed).routes i apart).trans (inserts.routes i apart)
    · rw [pool]
      exact inserts.bases b (taken i stops b visits member)
    · exact ((changesOnly_refreshRoute refreshed).entries i apart).trans (inserts.entries i apart)
    · exact inserts.enters.trans (changesOnly_refreshRoute refreshed).enters
  · rw [place]
    exact later

/-- A job that joins a trip. -/
theorem Survey.JoinsIn.realised {v : Vehicle α} {job : Nat} {d : Destination α} {routeCost : α}
    {gap : Gap} {offer : Offer α}
    (taken : ∀ i stops b, s.plan.Visits i stops → .base b ∈ stops → s.plan.pool.isFree b = false)
    (current : s.plan.Current s.problem r route) (locates : s.plan.pool.Locates route.stops)
    (driven : s.problem.vehicle route.vehicle = .ok v)
    (departs : route.departure s.problem = .ok departure)
    (served : s.problem.destination job = .ok d)
    (joins : s.JoinsIn ⟨r, route.vehicle, v, departure, .destination job⟩ route job d routeCost
      before after gap offer)
    (makes : makeChanges offer.proposal.changes s.plan = .ok () changed)
    (refreshed : changed.refreshRoute s.problem offer.proposal.route = .ok next) :
    ∃ t now, t.vehicle = v ∧ t.gap = gap ∧ offer.proposal.Realised s r route t next now := by
  let t : Trial α := s.trialAt ⟨r, route.vehicle, v, departure, .destination job⟩ job gap
  have changes := congrArg Proposal.changes joins.proposal_eq
  rw [changes_propose rfl] at changes
  rw [changes, makeChanges_cons_answers] at makes
  rcases makes with ⟨_, inserted, rest⟩
  cases makeChanges_nil_answers.mp rest
  rw [Proposal.applyChange, joins.met.position_eq] at inserted
  have inserts := inserts_destination current.found joins.split inserted
  obtain ⟨now, takenUp, _⟩ := takenUp_of_inserts (t := t) [] taken current locates driven
    departs joins.split joins.met (by rw [Proposal.newStop?, changes]; rfl)
    (by rw [joins.proposal_eq]; rfl) (by rw [joins.proposal_eq]; rfl)
    (by rw [Proposal.stops, changes]; rfl) inserts (NewStop.stands_destination served)
    (by rwa [joins.proposal_eq] at refreshed)
  refine ⟨t, now, rfl, rfl, takenUp, fun b location duration placed => ?_⟩
  simp [changes] at placed

/-- A job that opens a trip, which a base closes. -/
theorem Survey.OpensBehind.realised {v : Vehicle α} {job b : Nat} {d : Destination α} {routeCost : α}
    {tail : Gap} {leaving arrival : Instant} {duration : Duration} {offer : Offer α}
    (taken : ∀ i stops b, s.plan.Visits i stops → .base b ∈ stops → s.plan.pool.isFree b = false)
    (current : s.plan.Current s.problem r route) (locates : s.plan.pool.Locates route.stops)
    (driven : s.problem.vehicle route.vehicle = .ok v)
    (departs : route.departure s.problem = .ok departure)
    (served : s.problem.destination job = .ok d)
    (opens : s.OpensBehind ⟨r, route.vehicle, v, departure, .destination job⟩ route job d b routeCost
      tail location leaving arrival duration offer)
    (makes : makeChanges offer.proposal.changes s.plan = .ok () changed)
    (refreshed : changed.refreshRoute s.problem offer.proposal.route = .ok next) :
    ∃ t now, t.vehicle = v ∧ t.gap = tail ∧ offer.proposal.Realised s r route t next now := by
  let t : Trial α :=
    { s.tailTrial ⟨r, route.vehicle, v, departure, .destination job⟩ job b location tail with
      gap := tail }
  have changes := congrArg Proposal.changes opens.proposal_eq
  rw [changes_propose rfl] at changes
  have position : offer.proposal.position = route.stops.length := by
    rw [opens.proposal_eq]
    exact opens.met.position_eq
  rw [changes] at makes
  simp only [makeChanges_cons_answers, makeChanges_nil_answers, Proposal.applyChange,
    opens.met.position_eq] at makes
  rcases makes with ⟨_, insertedJob, _, insertedBase, _, put, rfl⟩
  have whole : route.stops = route.stops ++ [] := (List.append_nil _).symm
  have behind : route.stops.length + 1 = (route.stops ++ [Stop.destination job]).length := by
    rw [List.length_append, List.length_singleton]
  rw [behind] at insertedBase
  have first := inserts_destination current.found whole insertedJob
  obtain ⟨second, lies, placed⟩ :=
    inserts_base first.found (List.append_nil _).symm insertedBase put
  have inserts := first.trans second
  rw [List.append_assoc] at inserts
  obtain ⟨now, takenUp, left, leaves, later⟩ := takenUp_of_inserts (t := t) [.base b] taken
    current locates driven departs whole opens.met (by rw [Proposal.newStop?, changes]; rfl)
    (by rw [opens.proposal_eq]; rfl) (by rw [opens.proposal_eq]; rfl)
    (by rw [Proposal.stops, changes]; rfl) inserts (NewStop.stands_destination served)
    (by rwa [opens.proposal_eq] at refreshed)
  have stops : offer.proposal.stops = [.destination job, .base b] := by
    rw [Proposal.stops, changes]
    rfl
  have placedNow : next.pool.base b = .ok (lies.place location duration) := by
    rw [(refreshRoute_keeps refreshed).2.1]
    exact placed
  have reached : s.problem.arrival v (some d.location) (some location) leaving =
      .ok (now.arrivalAt (offer.proposal.position + 1)) := by
    cases opens.leaves.symm.trans leaves
    have liesThere : s.problem.stopLocation next.pool (.base b) = .ok (some location) :=
      (NewStop.stands_base placedNow).lies
    refine later (some location) ?_
    rw [List.singleton_append, Problem.headsFor, liesThere]
    rfl
  cases opens.arrives.symm.trans reached
  refine ⟨t, now, rfl, rfl, takenUp, fun c here spends member => ?_⟩
  simp only [changes, List.mem_cons, reduceCtorEq, Change.place.injEq, List.not_mem_nil, or_false,
    false_or] at member
  obtain ⟨rfl, rfl, rfl⟩ := member
  rw [stops]
  refine ⟨?_, ⟨lies, placedNow⟩, ?_, opens.takes⟩
  · rw [takenUp.stops_eq, stops, position]
    simp
  · have behindJob : t.baseArrival s.problem here = (s.problem.destination job >>= fun d =>
        t.leaving s.problem >>= s.problem.arrival v (some d.location) (some here)) := rfl
    rw [behindJob, served, leaves]
    cases opens.leaves.symm.trans leaves
    exact reached

/-- A base that splits a trip. -/
theorem Survey.SplitsIn.realised {v : Vehicle α} {b : Nat} {gap : Gap} {arrival : Instant}
    {duration : Duration}
    (taken : ∀ i stops b, s.plan.Visits i stops → .base b ∈ stops → s.plan.pool.isFree b = false)
    (current : s.plan.Current s.problem r route) (locates : s.plan.pool.Locates route.stops)
    (driven : s.problem.vehicle route.vehicle = .ok v)
    (departs : route.departure s.problem = .ok departure)
    (splits : s.SplitsIn ⟨r, route.vehicle, v, departure, .base b⟩ route b before after gap location
      arrival duration q)
    (makes : makeChanges q.changes s.plan = .ok () changed)
    (refreshed : changed.refreshRoute s.problem q.route = .ok next) :
    ∃ t now, t.vehicle = v ∧ t.gap = gap ∧ q.Realised s r route t next now := by
  let t : Trial α :=
    { route := r, vehicle := v, newStop := .base b location duration, gap := gap,
      load := s.loadBefore r gap, unloadLocation := some location }
  have changes := congrArg Proposal.changes splits.proposal_eq
  rw [changes_propose rfl] at changes
  rw [changes] at makes
  simp only [makeChanges_cons_answers, makeChanges_nil_answers, Proposal.applyChange,
    splits.met.position_eq] at makes
  rcases makes with ⟨_, inserted, _, put, rfl⟩
  obtain ⟨inserts, lies, placed⟩ := inserts_base current.found splits.split inserted put
  obtain ⟨now, takenUp, _⟩ := takenUp_of_inserts (t := t) [] taken current locates driven
    departs splits.split splits.met (by rw [Proposal.newStop?, changes])
    (by rw [splits.proposal_eq]; rfl) (by rw [splits.proposal_eq]; rfl)
    (by rw [Proposal.stops, changes]; rfl) inserts (NewStop.stands_base placed)
    (by rwa [splits.proposal_eq] at refreshed)
  have arrives : t.arrival s.problem = .ok arrival := splits.arrives
  cases arrives.symm.trans takenUp.arrival_eq
  refine ⟨t, now, rfl, rfl, takenUp, fun c here spends member => ?_⟩
  simp only [changes, List.mem_cons, reduceCtorEq, Change.place.injEq, List.not_mem_nil, or_false,
    false_or] at member
  obtain ⟨rfl, rfl, rfl⟩ := member
  have stops : q.stops = [.base c] := by
    rw [Proposal.stops, changes]
    rfl
  rw [stops]
  refine ⟨takenUp.stop_eq, ⟨lies, ?_⟩, arrives, splits.takes⟩
  rw [(refreshRoute_keeps refreshed).2.1]
  exact placed

/-- Where nothing is out of date, no routed base is free and the bases of a route have locations, what
the calculators propose for the route comes true when it is taken up: in the gap at its position the
new stop was tried out, and there it stands and is reached as it was. -/
theorem commit_realises {volumes : Volumes α} {after : Work α}
    (fresh : s.plan.refreshRoutes s.problem = .ok s.plan)
    (taken : ∀ i stops b, s.plan.Visits i stops → .base b ∈ stops → s.plan.pool.isFree b = false)
    (found : s.plan.routes[r]? = some route) (locates : s.plan.pool.Locates route.stops)
    (departs : route.departure s.problem = .ok departure)
    (proposes : s.Proposes r route.vehicle departure q)
    (done : Fill.commit s.problem q ⟨s.plan, volumes⟩ = .ok () after) :
    ∃ v gaps gap t now, s.problem.vehicle route.vehicle = .ok v ∧
      Walk.gaps s.problem s.plan.pool v (.start v departure) route.stops = .ok gaps ∧
      gaps[q.position]? = some gap ∧ t.vehicle = v ∧ t.gap = gap ∧
      q.Realised s r route t after.plan now := by
  obtain ⟨same, current⟩ :=
    refreshRoutes_eq_self.mp fresh r (List.getElem?_eq_some_iff.mp found).1
  cases found.symm.trans current.found
  obtain ⟨changed, makes, refreshed⟩ := Work.commit_answers done
  have visited : ∃ v visits, s.problem.vehicle route.vehicle = .ok v ∧
      Route.visitsFrom s.problem s.plan.pool v v.depot departure route.stops = .ok visits := by
    have times := current.times
    simp only [Route.reschedule, bind_eq_ok] at times
    rcases times with ⟨v, driven, start, sets, visits, visited, _⟩
    cases departs.symm.trans sets
    exact ⟨v, visits, driven, visited⟩
  obtain ⟨v, visits, driven, visited⟩ := visited
  -- A gap between two parts of the route is the one at the position of the second part.
  have listed {before behind : List Stop} {gap : Gap} (split : route.stops = before ++ behind)
      (met : gap.Met s.problem s.plan.pool v departure before behind) : ∃ gaps,
      Walk.gaps s.problem s.plan.pool v (.start v departure) route.stops = .ok gaps ∧
        gaps[gap.position]? = some gap := by
    rw [met.position_eq, split]
    exact Walk.gaps_of_met (split ▸ visited) met
  cases proposes with
  | @job job known offer calculated =>
      obtain ⟨_, _, d, routeCost, foundAgain, drivenAgain, served, _, _, either⟩ :=
        Survey.cheapest_eq_some calculated
      cases found.symm.trans foundAgain
      cases driven.symm.trans drivenAgain
      rcases either with ⟨bound, scanned⟩ | ⟨b, bound, lowest, opened⟩
      · obtain ⟨before, behind, gap, joins⟩ := Survey.scanTrips_joinsIn scanned
        obtain ⟨gaps, walked, here⟩ := listed joins.split joins.met
        obtain ⟨t, now, vehicle, tried, realised⟩ := joins.realised taken current locates driven
          departs served makes refreshed
        refine ⟨v, gaps, gap, t, now, driven, walked, ?_, vehicle, tried, realised⟩
        rw [joins.proposal_eq]
        exact here
      · obtain ⟨tail, location, leaving, arrival, duration, opens⟩ :=
          Survey.openTrip_opensBehind opened
        obtain ⟨gaps, walked, here⟩ := listed (List.append_nil _).symm opens.met
        obtain ⟨t, now, vehicle, tried, realised⟩ := opens.realised taken current locates driven
          departs served makes refreshed
        refine ⟨v, gaps, tail, t, now, driven, walked, ?_, vehicle, tried, realised⟩
        rw [opens.proposal_eq]
        exact here
  | @base b _ calculated =>
      obtain ⟨_, _, _, drivenAgain, foundAgain, before, behind, gap, location, arrival, duration,
        splits⟩ := Survey.firstPlace_splitsIn calculated
      cases found.symm.trans foundAgain
      cases driven.symm.trans drivenAgain
      obtain ⟨gaps, walked, here⟩ := listed splits.split splits.met
      obtain ⟨t, now, vehicle, tried, realised⟩ := splits.realised taken current locates driven departs
        makes refreshed
      refine ⟨v, gaps, gap, t, now, driven, walked, ?_, vehicle, tried, realised⟩
      rw [splits.proposal_eq]
      exact here

end

/-- The first job and a base fill a trip, so the second job opens another one. -/
theorem commit_realises_twoJobs :
    ∃ (s : Survey Rat) (route : Route) (departure : Instant) (offer : Offer Rat) (after : Work Rat),
      s.problem = twoJobs ∧ s.plan.itineraries = [(0, [.destination 0, .base 0])] ∧
      s.plan.routes[0]? = some route ∧
      s.cheapest 0 1 route.vehicle departure none = .ok (some offer) ∧
      Fill.commit s.problem offer.proposal ⟨s.plan, s.volumes⟩ = .ok () after ∧
      ∃ t now, offer.proposal.Realised s 0 route t after.plan now ∧
        now.stops = [.destination 0, .base 0, .destination 1, .base 1] ∧
        t.arrival s.problem = .ok (now.arrivalAt 2) := by
  have run : (do
      let empty ← Plan.empty twoJobs
      let served ← empty.insertStop 0 0 (.destination 0)
      let closed ← served.insertStop 0 1 (.base 0)
      let placed ← closed.placeBase 0 3 .zero
      let fresh ← placed.refreshRoutes twoJobs
      let plan ← Room.markFullRoutes twoJobs fresh (.ofSites twoJobs.sites) 1
      let s := (Settings.forProblem twoJobs .standard).survey twoJobs plan (.ofSites twoJobs.sites)
        true
      let route ← plan.route 0
      let departure ← route.departure twoJobs
      let offer ← orOutOfTable (← s.cheapest 0 1 route.vehicle departure none)
      match Fill.commit twoJobs offer.proposal ⟨plan, .ofSites twoJobs.sites⟩ with
      | .error e _ => .error e
      | .ok () after =>
        let now ← after.plan.route 0
        .ok (plan.itineraries, plan.pool.isFree 0, plan.pool.locationOf 0, offer.proposal.position,
          now.stops)) =
      Except.ok ([(0, [.destination 0, .base 0])], false, some 3, 2,
        [.destination 0, .base 0, .destination 1, .base 1]) := by
    decide +kernel
  simp only [bind_eq_ok, orOutOfTable_eq_ok, route_eq_ok] at run
  rcases run with ⟨_, _, _, _, _, _, _, _, fresh, refreshed, plan, marked, route, found, departure, departs,
    found?, calculated, offer, rfl, run⟩
  let s := (Settings.forProblem twoJobs .standard).survey twoJobs plan (.ofSites twoJobs.sites) true
  cases done : Fill.commit twoJobs offer.proposal ⟨plan, .ofSites twoJobs.sites⟩ with
  | error e after =>
      rw [done] at run
      cases run
  | ok _ after =>
      simp only [done, bind_eq_ok, route_eq_ok, Except.ok.injEq, Prod.mk.injEq] at run
      rcases run with ⟨now, foundNow, itineraries, out, lies, position, stopsNow⟩
      have upToDate : plan.UpToDate twoJobs := by
        obtain ⟨ledger, rfl, same, enters⟩ := Room.markFullRoutes_eq_ok marked
        exact (upToDate_of_refreshRoutes refreshed).marks same enters
      have stops : route.stops = [.destination 0, .base 0] := by
        have itinerary := itineraries_of_route found
        rw [itineraries, List.getElem?_cons_zero, Option.some.injEq, Prod.mk.injEq] at itinerary
        exact itinerary.2.symm
      have only : ∀ b, .base b ∈ [Stop.destination 0, .base 0] → b = 0 := by simp
      have taken : ∀ i others b, plan.Visits i others → .base b ∈ others →
          plan.pool.isFree b = false := by
        rintro i others b ⟨vehicle, visits⟩ member
        rw [itineraries] at visits
        cases i with
        | zero =>
            cases visits
            rw [only b member]
            exact out
        | succ i => cases visits
      have locates : plan.pool.Locates route.stops := by
        intro b member
        rw [only b (stops ▸ member)]
        exact ⟨3, lies⟩
      obtain ⟨_, _, _, t, _, _, _, _, _, _, realised⟩ := commit_realises (s := s)
        (refreshRoutes_eq_self.mpr upToDate) taken found locates departs (.job calculated) done
      cases foundNow.symm.trans realised.found
      exact ⟨s, route, departure, offer, after, rfl, itineraries, found, calculated, done, t, now,
        realised, stopsNow, position ▸ realised.arrival_eq⟩

end Haulage

/-
Module: Haulage.Proofs.Replay
Purpose: The gaps that a walk along a route comes to agree with what is stored of the route.  They
  lie between its stops, at the times of its visits, and are counted by trips as the ledger and the
  reports count them.
Main exports: jobsAround, baseAhead?, Route.leavesFor, Gap.Replays, Gap.Filed, Walk.scan_eq_forIn,
  Gap.Met.replays, Gap.Between.filed, gaps_replay
-/
import Haulage.Proofs.Account
import Haulage.Proofs.Realised

namespace Haulage

variable {α : Type} [Quantity α]

open Plan

/-! ### The trip around a position -/

/-- The jobs of the trip around a position: those since the last base before it, and those up to the
next base. -/
def jobsAround (stops : List Stop) (position : Nat) : List Nat :=
  jobsIn ((stops.take position).reverse.takeWhile (·.isDestination)).reverse ++
    jobsIn ((stops.drop position).takeWhile (·.isDestination))

/-- The base that closes the trip around a position, which is the next one. -/
def baseAhead? (stops : List Stop) (position : Nat) : Option Nat :=
  (stops.drop position).findSome? (·.base?)

/-- The jobs after the last base. -/
theorem openJobs_eq (stops : List Stop) :
    openJobs stops = jobsIn (stops.reverse.takeWhile (·.isDestination)).reverse := by
  induction stops using List.reverseRecOn with
  | nil => rfl
  | append_singleton stops stop inductionHypothesis =>
      cases stop with
      | destination job =>
          rw [openJobs_append_destination, inductionHypothesis]
          simp [jobsIn, Stop.isDestination, Stop.job?]
      | base b =>
          rw [openJobs_append]
          simp [tripsOf, jobsIn, Stop.isDestination]

/-- The jobs up to the first base. -/
theorem jobsOfTrip_zero (stops : List Stop) :
    jobsOfTrip stops 0 = jobsIn (stops.takeWhile (·.isDestination)) := by
  induction stops with
  | nil => rfl
  | cons stop rest inductionHypothesis =>
      cases stop with
      | destination job =>
          rw [jobsOfTrip_destination, inductionHypothesis]
          simp [jobsIn, Stop.isDestination, Stop.job?]
      | base b => simp [jobsIn, Stop.isDestination]

/-- The trip around a position has the number of the bases before it. -/
theorem jobsAround_eq (front rest : List Stop) :
    jobsAround (front ++ rest) front.length = jobsOfTrip (front ++ rest) (basesIn front) := by
  rw [jobsAround, List.take_left, List.drop_left, jobsOfTrip_append, openJobs_eq, jobsOfTrip_zero]

theorem baseAhead?_append (front rest : List Stop) :
    baseAhead? (front ++ rest) front.length = rest.findSome? (·.base?) := by
  rw [baseAhead?, List.drop_left]

theorem head?_tripsOf (served : List Nat) (stops : List Stop) :
    (tripsOf served stops).1.head?.map (·.base) = stops.findSome? (·.base?) := by
  induction stops generalizing served with
  | nil => rfl
  | cons stop rest inductionHypothesis =>
      cases stop with
      | destination job => exact inductionHypothesis (served ++ [job])
      | base b => rfl

/-- The trip around a position unloads where the next base lies. -/
theorem placeOf_append (pool : BasePool) (front rest : List Stop) :
    pool.placeOf (front ++ rest) (basesIn front) =
      (baseAhead? (front ++ rest) front.length).bind pool.locationOf := by
  have behind : (closedTrips front).length ≤ basesIn front := Nat.le_of_eq (length_closedTrips front)
  rw [baseAhead?_append, BasePool.placeOf, closedTrips_append, List.getElem?_append_right behind,
    length_closedTrips, Nat.sub_self, ← List.head?_eq_getElem?, ← head?_tripsOf (openJobs front),
    Option.bind_map]
  rfl

/-! ### Times around a position -/

/-- When the vehicle of a route leaves for the stop at a position, or for the end: at its departure,
or when the stop before is left. -/
def Route.leavesFor (p : Problem α) (route : Route) : Nat → Except Failure Instant
  | 0 => route.departure p
  | i + 1 => do .ok (← route.visit i).departure

section

variable {p : Problem α} {pool : BasePool} {v : Vehicle α} {route : Route} {stops : List Stop}
  {departure leaving : Instant} {visits : List Visit}

/-- The last of some stops is left when the vehicle goes on. -/
theorem Route.leaves_of_visitsFrom {place here : Option Nat}
    (done : visitsFrom p pool v place departure stops = .ok (visits, here, leaving)) :
    (visits.getLast?.map (·.departure)).getD departure = leaving := by
  induction stops generalizing place departure visits with
  | nil =>
      cases done
      rfl
  | cons stop rest inductionHypothesis =>
      simp only [visitsFrom, bind_eq_ok] at done
      rcases done with ⟨_, _, arrival, _, left, _, waiting, _, ⟨later, _⟩, tail, equal⟩
      cases equal
      have last := inductionHypothesis tail
      cases found : later.getLast? with
      | none => simpa [List.getLast?_cons, found] using last
      | some visit => simpa [List.getLast?_cons, found] using last

/-- Behind its first stops a route is left when the vehicle goes on. -/
theorem Route.Departs.leavesFor {front : List Stop} {here : Option Nat}
    (departs : route.Departs p pool front v visits here leaving) {late : List Visit}
    (whole : route.visits = visits ++ late) : route.leavesFor p front.length = .ok leaving := by
  have long := departs.length_eq
  obtain ⟨start, sets, visited⟩ := departs.visited
  have last := leaves_of_visitsFrom visited
  cases size : front.length with
  | zero =>
      have none : visits = [] := List.length_eq_zero_iff.mp (long.trans size)
      subst none
      rw [Route.leavesFor, sets]
      exact congrArg Except.ok last
  | succ i =>
      have inside : i < visits.length := by omega
      have final : visits.getLast? = some visits[i] := by
        rw [List.getLast?_eq_getElem?, long, size, Nat.add_sub_cancel, List.getElem?_eq_getElem inside]
      have found : route.visit i = .ok visits[i] := by
        rw [Route.visit, whole, List.getElem?_append_left inside, List.getElem?_eq_getElem inside]
        rfl
      rw [final] at last
      rw [Route.leavesFor, found]
      exact congrArg Except.ok last

end

/-! ### A gap as the route has it -/

/-- A gap is the one at a position of a route.  It lies between the stops there, the stop before it
is left when its visit ends, and from there the stop behind it, or the end, is reached when the
route reaches it. -/
structure Gap.Replays (p : Problem α) (v : Vehicle α) (route : Route) (position : Nat) (gap : Gap) :
    Prop where
  position_eq : gap.position = position
  previous_eq : route.before position = .ok gap.previous
  next_eq : gap.next = route.next position
  departure_eq : route.leavesFor p position = .ok gap.previousDeparture
  arrival_eq : p.arrival v gap.previousLocation gap.nextLocation gap.previousDeparture =
    .ok (route.arrivalAt position)
  trip_eq : gap.trip = basesIn (route.stops.take position)

/-- The trip of a gap has the same number in the ledger, which holds its load and where it unloads,
and in what is told about the route.  There the stop behind the gap is told to be on it. -/
structure Gap.Filed (p : Problem α) (plan : Plan α) (r : Nat) (stops : List Stop)
    (told : List (StopReport α)) (gap : Gap) : Prop where
  load_eq : plan.ledger.load r gap.trip = p.demandOf (jobsAround stops gap.position)
  location_eq : plan.ledger.unloadLocation? r gap.trip =
    (baseAhead? stops gap.position).bind plan.pool.locationOf
  served_eq : StopReport.servedOn gap.trip stops told = jobsAround stops gap.position
  told_eq : ∀ report, told[gap.position]? = some report → report.trip = gap.trip

section

variable {p : Problem α} {pool : BasePool} {plan : Plan α} {v : Vehicle α} {route : Route}
  {departure : Instant} {before after : List Stop} {gap : Gap} {r : Nat}

/-- Where the times of a route are current, the vehicle comes to its gaps as they are stored. -/
theorem Gap.Met.replays (times : route.reschedule p pool = .ok route)
    (driven : p.vehicle route.vehicle = .ok v) (sets : route.departure p = .ok departure)
    (split : route.stops = before ++ after)
    (met : gap.Met p pool v departure before after) : gap.Replays p v route before.length := by
  obtain ⟨visits, comes⟩ := met.comes
  have front : route.Departs p pool before v visits gap.previousLocation gap.previousDeparture :=
    ⟨driven, departure, sets, comes⟩
  obtain ⟨_, _, _, _, late, _, _, departs, visited, ends, whole⟩ := Route.departs_of_times times split
  obtain ⟨rfl, rfl, rfl, rfl⟩ := front.unique departs
  have arrives := Route.arrivalAt_of_headsFor whole visited ends met.heads
  rw [front.length_eq] at arrives
  constructor
  case position_eq => exact met.position_eq
  case departure_eq => exact front.leavesFor whole
  case arrival_eq => exact arrives
  case trip_eq => rw [met.trip_eq, split, List.take_left]
  case previous_eq => exact met.before_eq split
  case next_eq =>
    rw [met.next_eq, Route.next, split, List.getElem?_append_right (Nat.le_refl _), Nat.sub_self,
      ← List.head?_eq_getElem?]
    cases after with
    | nil => rfl
    | cons stop rest => rfl

omit [Quantity α] in
/-- A stop is told to be on the trip with the number of bases before it. -/
theorem StopReport.Recounts.trip_at {trip : Nat} {stops : List Stop} {told : List (StopReport α)}
    (recounts : Recounts p plan r trip stops told) {i : Nat} {report : StopReport α}
    (found : told[i]? = some report) : report.trip = trip + basesIn (stops.take i) := by
  induction recounts generalizing i with
  | nil => cases found
  | destination _ _ _ _ _ inductionHypothesis =>
      cases i with
      | zero =>
          cases found
          rfl
      | succ i => simpa using inductionHypothesis found
  | base _ _ _ _ inductionHypothesis =>
      cases i with
      | zero =>
          cases found
          rfl
      | succ i =>
          have later := inductionHypothesis found
          simp only [List.take_succ_cons, basesIn_base]
          omega

/-- Where the ledger agrees with a route, it files the trip of a gap under the number that the gap
gives it, and so does what is told about the route. -/
theorem Gap.Between.filed {told : List (StopReport α)} (agrees : plan.Agrees p r)
    (visits : plan.Visits r (before ++ after))
    (recounts : StopReport.Recounts p plan r 0 (before ++ after) told)
    (between : gap.Between before after) : gap.Filed p plan r (before ++ after) told := by
  constructor
  case load_eq =>
    rw [agrees.load_eq visits, between.trip_eq, between.position_eq, jobsAround_eq]
  case location_eq =>
    rw [agrees.unloadLocation_eq visits, between.trip_eq, between.position_eq, placeOf_append]
  case served_eq =>
    have served := recounts.servedOn_eq.1 gap.trip
    rw [Nat.zero_add] at served
    rw [served, between.trip_eq, between.position_eq, jobsAround_eq]
  case told_eq =>
    intro report found
    rw [between.position_eq] at found
    rw [recounts.trip_at found, between.trip_eq, List.take_left, Nat.zero_add]

end

/-! ### Walks -/

namespace Walk

variable {p : Problem α} {pool : BasePool} {v : Vehicle α} {w : Walk} {stops : List Stop}
  {gaps : List Gap}

/-- A scan looks at the gaps one after the other, until it is told to stop. -/
theorem scan_eq_forIn {σ : Type} (walked : Walk.gaps p pool v w stops = .ok gaps)
    (look : σ → Gap → Except Failure (ForInStep σ)) (s : σ) :
    scan p pool v look w s stops = forIn gaps s fun gap s => look s gap := by
  induction stops generalizing w s gaps with
  | nil =>
      cases walked
      rw [scan, List.forIn_cons]
      exact bind_congr fun step => by cases step <;> rfl
  | cons stop rest inductionHypothesis =>
      simp only [Walk.gaps, bind_eq_ok] at walked
      rcases walked with ⟨⟨gap, further⟩, moved, later, others, equal⟩
      cases equal
      rw [scan, moved, List.forIn_cons]
      show (look s gap >>= _) = (look s gap >>= _)
      refine bind_congr fun step => ?_
      cases step with
      | done t => rfl
      | yield t => exact inductionHypothesis others t

/-- The gap at the tail is the last one. -/
theorem tailGap_eq (walked : Walk.gaps p pool v w stops = .ok gaps) :
    tailGap p pool v w stops = orOutOfTable gaps.getLast? := by
  induction stops generalizing w gaps with
  | nil =>
      cases walked
      rfl
  | cons stop rest inductionHypothesis =>
      simp only [Walk.gaps, bind_eq_ok] at walked
      rcases walked with ⟨⟨gap, further⟩, moved, later, others, equal⟩
      cases equal
      have last : later.getLast?.isSome = true := by
        cases rest with
        | nil =>
            cases others
            rfl
        | cons next rest =>
            simp only [Walk.gaps, bind_eq_ok] at others
            obtain ⟨_, _, _, _, equal⟩ := others
            cases equal
            rw [List.getLast?_isSome]
            exact List.cons_ne_nil _ _
      obtain ⟨tail, found⟩ := Option.isSome_iff_exists.mp last
      rw [tailGap, moved, List.getLast?_cons, found]
      exact (inductionHypothesis others).trans (by rw [found]; rfl)

end Walk

/-! ### All gaps of a route -/

section

variable {p : Problem α} {plan : Plan α} {r : Nat} {route : Route}

/-- Where the times of a route are current, a refresh enters what follows from them. -/
theorem Plan.refreshRoute_of_times (found : plan.routes[r]? = some route)
    (times : route.reschedule p plan.pool = .ok route) :
    ∃ next, plan.refreshRoute p r = .ok next ∧ next.routes = plan.routes ∧
      next.pool = plan.pool := by
  obtain ⟨v, _, _, _, _, _, _, departs, _⟩ :=
    Route.departs_of_times times (List.nil_append route.stops).symm
  obtain ⟨entry, derived⟩ := RouteEntry.derive_answers departs.driven
    (fun _ => Route.stopLocation_of_times times) (Route.length_visits times)
  simp only [Plan.refreshRoute, Ledger.refresh, bind_eq_ok, route_eq_ok]
  refine ⟨_, ⟨route, found, route, times, _, ⟨entry, derived, rfl⟩, rfl⟩, ?_, rfl⟩
  rw [setRoute_self found]

/-- A route whose times are current is walked with its own vehicle and departure.  There is one gap
for each position, in their order, and each is the gap that the route has there.  Its trip is the one
under whose number a refresh enters the trip in the ledger and under which its stops are told.  Walks
that look at the gaps, or at the last of them only, come to the same gaps. -/
theorem gaps_replay (found : plan.routes[r]? = some route)
    (times : route.reschedule p plan.pool = .ok route) :
    ∃ v departure gaps next told,
      p.vehicle route.vehicle = .ok v ∧ route.departure p = .ok departure ∧
      Walk.gaps p plan.pool v (.start v departure) route.stops = .ok gaps ∧
      gaps.length = route.length + 1 ∧
      (∀ (σ : Type) (look : σ → Gap → Except Failure (ForInStep σ)) (s : σ),
        Walk.scan p plan.pool v look (.start v departure) s route.stops =
          forIn gaps s fun gap s => look s gap) ∧
      Walk.tailGap p plan.pool v (.start v departure) route.stops = orOutOfTable gaps.getLast? ∧
      plan.refreshRoute p r = .ok next ∧ next.routes = plan.routes ∧
      StopReport.ofStops p next r 0 route.stops route.visits = .ok told ∧
      told.length = route.length ∧
      ∀ (i : Nat) (gap : Gap), gaps[i]? = some gap →
        gap.Replays p v route i ∧ gap.Filed p next r route.stops told := by
  obtain ⟨next, refreshed, routes, pool⟩ := Plan.refreshRoute_of_times found times
  have known : ∀ stop ∈ route.stops, ∃ here, p.stopLocation next.pool stop = .ok here := by
    intro stop member
    rw [pool]
    exact Route.stopLocation_of_times times member
  obtain ⟨told, tells⟩ : ∃ told, StopReport.ofStops p next r 0 route.stops route.visits = .ok told :=
    StopReport.ofStops_answers known (Route.length_visits times)
  have recounts := StopReport.recounts_of_ofStops tells
  have visits : next.Visits r route.stops := visits_of_route (routes ▸ found)
  have agrees := (refreshRoute_agrees refreshed).1
  have again := times
  simp only [Route.reschedule, bind_eq_ok] at again
  obtain ⟨v, driven, departure, sets, visited, done, _⟩ := again
  obtain ⟨gaps, walked, length⟩ := Walk.gaps_answers (w := .start v departure) done
  refine ⟨v, departure, gaps, next, told, driven, sets, walked, length, ?_, Walk.tailGap_eq walked,
    refreshed, routes, tells, recounts.tells.length_eq.symm, ?_⟩
  · intro σ look s
    exact Walk.scan_eq_forIn walked look s
  · intro i gap here
    obtain ⟨before, after, split, rfl, met⟩ := Walk.gap_met walked here
    constructor
    · exact met.replays times driven sets split
    · rw [split] at visits recounts ⊢
      exact met.toBetween.filed agrees visits recounts

end

/-- Two trips, of which the second is closed by a base without a location. -/
theorem gaps_replay_twoJobs :
    ∃ (plan : Plan Rat) (route : Route) (v : Vehicle Rat) (departure : Instant) (gaps : List Gap),
      plan.routes[0]? = some route ∧
      route.stops = [.destination 0, .base 0, .destination 1, .base 1] ∧
      plan.pool.locationOf 0 = some 3 ∧ plan.pool.locationOf 1 = none ∧
      Walk.gaps twoJobs plan.pool v (.start v departure) route.stops = .ok gaps ∧
      gaps.map (·.trip) = [0, 0, 1, 1, 2] ∧
      ∀ (i : Nat) (gap : Gap), gaps[i]? = some gap → gap.Replays twoJobs v route i := by
  have run : (do
      let empty ← Plan.empty twoJobs
      let first ← empty.insertStop 0 0 (.destination 0)
      let closed ← first.insertStop 0 1 (.base 0)
      let placed ← closed.placeBase 0 3 .zero
      let second ← placed.insertStop 0 2 (.destination 1)
      let whole ← second.insertStop 0 3 (.base 1)
      let plan ← whole.refreshRoute twoJobs 0
      let route ← plan.route 0
      let again ← route.reschedule twoJobs plan.pool
      let v ← twoJobs.vehicle route.vehicle
      let departure ← route.departure twoJobs
      let gaps ← Walk.gaps twoJobs plan.pool v (.start v departure) route.stops
      .ok (decide (again = route), route.stops, plan.pool.locationOf 0, plan.pool.locationOf 1,
        gaps.map (·.trip))) =
      Except.ok (true, [.destination 0, .base 0, .destination 1, .base 1], some 3, none,
        [0, 0, 1, 1, 2]) := by
    decide +kernel
  simp only [bind_eq_ok, route_eq_ok, Except.ok.injEq, Prod.mk.injEq, decide_eq_true_eq] at run
  obtain ⟨_, _, _, _, _, _, _, _, _, _, _, _, plan, _, route, found, _, times, v, driven, departure,
    sets, gaps, walked, rfl, stops, placed, unplaced, trips⟩ := run
  obtain ⟨_, _, _, _, _, drivenAgain, setsAgain, walkedAgain, _, _, _, _, _, _, _, each⟩ :=
    gaps_replay found times
  cases driven.symm.trans drivenAgain
  cases sets.symm.trans setsAgain
  cases walked.symm.trans walkedAgain
  exact ⟨plan, _, v, departure, gaps, found, stops, placed, unplaced, walked, trips,
    fun i gap here => (each i gap here).1⟩

end Haulage

/-
Module: Haulage.Proofs.Slack
Purpose: The slack around the gaps of a route, as it is noted at the stops, is what the windows of the
  destinations before the gap and behind it come to.
Main exports: windowsOf, Route.waitingBefore, Route.latenessBefore, Route.waitingFrom,
  Route.latenessFrom, RouteEntry.Slacks, Route.windowCost_eq, Trial.pastSlack?_eq,
  Trial.futureSlack?_eq, slack_at_gaps
-/
import Mathlib.Tactic.Ring
import Haulage.Insertion.Rules
import Haulage.Proofs.Current
import Haulage.Proofs.Session

namespace Haulage

open Plan

section

variable {α : Type}

/-! ### Windows along a route -/

/-- The window of a stop, if it is a destination. -/
def Stop.window? (p : Problem α) : Stop → Option TimeWindow
  | .destination job => p.destinations[job]?.map (·.window)
  | .base _ => none

/-- The windows among some stops, each with the time at which the stop is reached. -/
def windowsOf (p : Problem α) (stops : List (Stop × Visit)) : List (TimeWindow × Instant) :=
  stops.filterMap fun (stop, visit) => (stop.window? p).map fun window => (window, visit.arrival)

theorem windowsOf_cons (p : Problem α) (stop : Stop) (visit : Visit) (rest : List (Stop × Visit)) :
    windowsOf p ((stop, visit) :: rest) =
      ((stop.window? p).map fun window => (window, visit.arrival)).toList ++ windowsOf p rest := by
  cases opens : stop.window? p <;> simp [windowsOf, opens]

/-- The stops of a route with their visits. -/
def Route.timed (route : Route) : List (Stop × Visit) := route.stops.zip route.visits

/-- The windows of the destinations before a position. -/
def Route.windowsBefore (p : Problem α) (route : Route) (i : Nat) : List (TimeWindow × Instant) :=
  windowsOf p (route.timed.take i)

/-- The windows of the destinations from a position on. -/
def Route.windowsFrom (p : Problem α) (route : Route) (i : Nat) : List (TimeWindow × Instant) :=
  windowsOf p (route.timed.drop i)

/-- Those of them that close only after a vehicle could set out. -/
def reachableFrom (v : Vehicle α) (windows : List (TimeWindow × Instant)) :
    List (TimeWindow × Instant) :=
  windows.filter fun (window, _) => window.isReachableFrom v.departure

end

namespace Route

/-- The seconds waited for windows before a position, added up. -/
def waitingBefore (p : Problem Rat) (route : Route) (i : Nat) : Rat :=
  ((route.windowsBefore p i).map fun (window, arrival) => window.earliness arrival).sum

/-- The seconds by which reachable windows before a position are missed, added up. -/
def latenessBefore (p : Problem Rat) (v : Vehicle Rat) (route : Route) (i : Nat) : Rat :=
  ((reachableFrom v (route.windowsBefore p i)).map fun (window, arrival) =>
    window.lateness arrival).sum

/-- The most seconds by which a window from a position on is reached too early, with their sign. -/
def waitingFrom (p : Problem Rat) (route : Route) (i : Nat) : Option Rat :=
  ((route.windowsFrom p i).filterMap fun (window, arrival) => window.startMiss arrival).max?

/-- The most seconds by which a reachable window from a position on, or the end of the shift, is
missed, with their sign. -/
def latenessFrom (p : Problem Rat) (v : Vehicle Rat) (route : Route) (i : Nat) : Option Rat :=
  let misses := (reachableFrom v (route.windowsFrom p i)).filterMap fun (window, arrival) =>
    window.endMiss arrival
  (misses ++ (route.endMiss v).toList).max?

end Route

/-! ### Exact numbers -/

theorem Quantity.positivePart_eq_max (x : Rat) : Quantity.positivePart x = max x 0 :=
  Quantity.larger_eq_max x 0

/-- The larger of what may be missing goes with the maximum of a list. -/
theorem Quantity.largerPresent_max? (xs : List Rat) (y : Option Rat) :
    Quantity.largerPresent xs.max? y = (y.toList ++ xs).max? := by
  cases y with
  | none => simp
  | some y =>
      rw [Option.toList_some, List.singleton_append, List.max?_cons]
      cases xs.max? with
      | none => rfl
      | some x => rw [Quantity.largerPresent, Quantity.larger_eq_max, max_comm, Option.elim_some]

/-! ### Misses of stops -/

/-- How far a stop that is reached at a certain time misses its window. -/
def missAt (p : Problem Rat) (departure : Instant) (stop : Stop × Visit) : Miss Rat :=
  match stop.1.window? p with
  | none => ⟨none, none⟩
  | some window => ⟨window.startMiss stop.2.arrival,
      if window.isReachableFrom departure then window.endMiss stop.2.arrival else none⟩

section

variable {p : Problem Rat} {departure : Instant} {stops : List Stop} {visits : List Visit}
  {misses : List (Miss Rat)}

theorem missesOf_eq_ok (done : missesOf p departure stops visits = .ok misses)
    (long : visits.length = stops.length) :
    misses = (stops.zip visits).map (missAt p departure) := by
  induction stops generalizing visits misses with
  | nil =>
      cases done
      rfl
  | cons stop rest inductionHypothesis =>
      cases visits with
      | nil => cases long
      | cons visit visits =>
          have shorter : visits.length = rest.length := by simpa using long
          cases stop with
          | destination job =>
              simp only [missesOf, bind_eq_ok] at done
              obtain ⟨d, found, later, tail, equal⟩ := done
              cases equal
              have window : (Stop.destination job).window? p = some d.window := by
                rw [Stop.window?, orOutOfTable_eq_ok.mp found]
                rfl
              rw [List.zip_cons_cons, List.map_cons, missAt, window,
                inductionHypothesis tail shorter]
          | base b =>
              simp only [missesOf, bind_eq_ok] at done
              obtain ⟨later, tail, equal⟩ := done
              cases equal
              rw [List.zip_cons_cons, List.map_cons, inductionHypothesis tail shorter]
              rfl

/-- The misses before a position are added up at it. -/
theorem getElem?_pastMisses (waiting lateness : Rat) (misses : List (Miss Rat)) {i : Nat}
    (inside : i ≤ misses.length) :
    (pastMisses waiting lateness misses)[i]? =
      some (waiting + ((misses.take i).map fun miss => missed miss.early).sum,
        lateness + ((misses.take i).map fun miss => missed miss.late).sum) := by
  induction misses generalizing waiting lateness i with
  | nil =>
      obtain rfl : i = 0 := Nat.le_zero.mp inside
      simp [pastMisses]
  | cons miss rest inductionHypothesis =>
      cases i with
      | zero => simp [pastMisses]
      | succ i =>
          rw [pastMisses, List.getElem?_cons_succ, inductionHypothesis _ _ (Nat.le_of_succ_le_succ inside)]
          simp only [List.take_succ_cons, List.map_cons, List.sum_cons, add_assoc]

theorem head?_futureMisses (endLate : Option Rat) (misses : List (Miss Rat)) :
    (futureMisses endLate misses).head? = some ⟨(misses.filterMap (·.early)).max?,
      (misses.filterMap (·.late) ++ endLate.toList).max?⟩ := by
  induction misses with
  | nil => cases endLate <;> rfl
  | cons miss rest inductionHypothesis =>
      have toList {β : Type} (f : Miss Rat → Option β) :
          (miss :: rest).filterMap f = (f miss).toList ++ rest.filterMap f := by
        cases here : f miss <;> simp [here]
      rw [futureMisses, inductionHypothesis, List.head?_cons, Option.getD_some, toList, toList,
        Quantity.largerPresent_max?, Quantity.largerPresent_max?, List.append_assoc]

theorem drop_futureMisses (endLate : Option Rat) (misses : List (Miss Rat)) {i : Nat}
    (inside : i ≤ misses.length) :
    (futureMisses endLate misses).drop i = futureMisses endLate (misses.drop i) := by
  induction misses generalizing i with
  | nil =>
      obtain rfl : i = 0 := Nat.le_zero.mp inside
      rfl
  | cons miss rest inductionHypothesis =>
      cases i with
      | zero => rfl
      | succ i => exact inductionHypothesis (Nat.le_of_succ_le_succ inside)

/-- The largest misses from a position on are noted at it. -/
theorem getElem?_futureMisses (endLate : Option Rat) (misses : List (Miss Rat)) {i : Nat}
    (inside : i ≤ misses.length) :
    (futureMisses endLate misses)[i]? = some ⟨((misses.drop i).filterMap (·.early)).max?,
      ((misses.drop i).filterMap (·.late) ++ endLate.toList).max?⟩ := by
  rw [← head?_futureMisses, ← drop_futureMisses endLate misses inside, List.head?_drop]

end

/-! ### Misses of windows -/

theorem missed_none : missed (none : Option Rat) = 0 := rfl

/-- What is missed in some places adds up to what is missed where there is something to miss. -/
theorem sum_map_missed {β : Type} (f : β → Option Rat) (xs : List β) :
    (xs.map fun x => missed (f x)).sum = ((xs.filterMap f).map Quantity.positivePart).sum := by
  induction xs with
  | nil => rfl
  | cons x xs inductionHypothesis =>
      rw [List.map_cons, List.sum_cons, inductionHypothesis]
      cases here : f x with
      | none => rw [List.filterMap_cons_none here]; exact zero_add _
      | some y => rw [List.filterMap_cons_some here, List.map_cons, List.sum_cons]; rfl

section

variable {p : Problem Rat} {v : Vehicle Rat}

theorem filterMap_early (stops : List (Stop × Visit)) (departure : Instant) :
    (stops.map (missAt p departure)).filterMap (·.early) =
      (windowsOf p stops).filterMap fun (window, arrival) => window.startMiss arrival := by
  rw [windowsOf, List.filterMap_map, List.filterMap_filterMap]
  apply List.filterMap_congr
  intro stop _
  simp only [Function.comp_apply, missAt]
  cases stop.1.window? p <;> rfl

theorem filterMap_late (stops : List (Stop × Visit)) :
    (stops.map (missAt p v.departure)).filterMap (·.late) =
      (reachableFrom v (windowsOf p stops)).filterMap fun (window, arrival) =>
        window.endMiss arrival := by
  rw [windowsOf, reachableFrom, List.filterMap_filter, List.filterMap_map, List.filterMap_filterMap]
  apply List.filterMap_congr
  intro stop _
  simp only [Function.comp_apply, missAt]
  cases stop.1.window? p <;> rfl

theorem earliness_eq_missed (window : TimeWindow) (arrival : Instant) :
    (window.earliness arrival : Rat) = missed (window.startMiss arrival) := by
  rw [missed, TimeWindow.earliness]
  cases window.startMiss (α := Rat) arrival <;> rfl

theorem lateness_eq_missed (window : TimeWindow) (arrival : Instant) :
    (window.lateness arrival : Rat) = missed (window.endMiss arrival) := by
  rw [missed, TimeWindow.lateness]
  cases window.endMiss (α := Rat) arrival <;> rfl

/-- The waiting and the lateness before a position are the missed parts of single misses. -/
theorem Route.waitingBefore_eq (departure : Instant) (route : Route) (i : Nat) :
    route.waitingBefore p i =
      (((route.timed.map (missAt p departure)).take i).map fun miss => missed miss.early).sum := by
  simp only [Route.waitingBefore, Route.windowsBefore, earliness_eq_missed]
  rw [sum_map_missed, ← List.map_take, sum_map_missed, filterMap_early]

theorem Route.latenessBefore_eq (route : Route) (i : Nat) :
    route.latenessBefore p v i =
      (((route.timed.map (missAt p v.departure)).take i).map fun miss => missed miss.late).sum := by
  simp only [Route.latenessBefore, Route.windowsBefore, lateness_eq_missed]
  rw [sum_map_missed, ← List.map_take, sum_map_missed, filterMap_late]

/-- The seconds by which windows are missed, added up stop by stop. -/
theorem missedSeconds_eq {departure : Instant} {stops : List Stop} {visits : List Visit}
    {misses : List (Miss Rat)} (done : missesOf p departure stops visits = .ok misses) (spent : Rat) :
    Route.missedSeconds p departure spent stops visits =
      .ok (spent + ((misses.map fun miss => missed miss.early).sum +
        (misses.map fun miss => missed miss.late).sum)) := by
  induction stops generalizing visits misses spent with
  | nil =>
      cases done
      simp [Route.missedSeconds]
  | cons stop rest inductionHypothesis =>
      cases stop with
      | base b =>
          simp only [missesOf, bind_eq_ok] at done
          obtain ⟨later, tail, equal⟩ := done
          cases equal
          rw [Route.missedSeconds, inductionHypothesis tail]
          simp [missed]
      | destination job =>
          cases visits with
          | nil => cases done
          | cons visit visits =>
              simp only [missesOf, bind_eq_ok] at done
              obtain ⟨d, found, later, tail, equal⟩ := done
              cases equal
              rw [Route.missedSeconds, found]
              refine (inductionHypothesis tail _).trans (congrArg Except.ok ?_)
              simp only [List.map_cons, List.sum_cons, earliness_eq_missed, lateness_eq_missed]
              split
              · ring
              · rw [missed_none]
                ring

end

/-! ### The slack of a route -/

/-- The slack with what is missed before one position and from another one on. -/
def Route.slack (p : Problem Rat) (v : Vehicle Rat) (route : Route) (i j : Nat) : Slack Rat where
  pastWaiting := route.waitingBefore p i
  pastLateness := route.latenessBefore p v i
  futureWaiting := route.waitingFrom p j
  futureLateness := route.latenessFrom p v j

section

variable (p : Problem Rat) (v : Vehicle Rat) (route : Route)

/-- Behind the last stop there is no window. -/
theorem Route.windowsFrom_length : route.windowsFrom p route.length = [] := by
  have short : route.timed.length ≤ route.length := by simp [Route.timed, Route.length]
  rw [Route.windowsFrom, List.drop_of_length_le short]
  rfl

theorem Route.waitingFrom_length : route.waitingFrom p route.length = none := by
  rw [Route.waitingFrom, windowsFrom_length]
  rfl

theorem Route.latenessFrom_length : route.latenessFrom p v route.length = route.endMiss v := by
  rw [Route.latenessFrom, windowsFrom_length]
  cases route.endMiss v <;> rfl

end

/-- The slack that is noted about a route.  A stop itself counts neither before it nor behind it. -/
structure RouteEntry.Slacks (p : Problem Rat) (v : Vehicle Rat) (route : Route)
    (e : RouteEntry Rat) : Prop where
  start_eq : e.startSlack = some (route.slack p v 0 0)
  stop_eq : ∀ i < route.length, (e.stops[i]?).map (·.slack) = some (route.slack p v i (i + 1))
  end_eq : e.endSlack = some (route.slack p v route.length route.length)

section

variable {p : Problem Rat} {pool : BasePool} {v : Vehicle Rat} {route : Route} {e : RouteEntry Rat}

theorem RouteEntry.derive_slacks (done : RouteEntry.derive p pool route = .ok e)
    (driven : p.vehicle route.vehicle = .ok v)
    (long : route.visits.length = route.stops.length) : e.Slacks p v route := by
  obtain ⟨_, loads, misses, made⟩ := derive_eq_ok done
  cases driven.symm.trans made.driven
  obtain rfl : misses = route.timed.map (missAt p v.departure) := missesOf_eq_ok made.missed long
  have size : (route.timed.map (missAt p v.departure)).length = route.length := by
    simp [Route.timed, long, Route.length]
  have past {i : Nat} (inside : i ≤ route.length) :
      (pastMisses 0 0 (route.timed.map (missAt p v.departure)))[i]? =
        some (route.waitingBefore p i, route.latenessBefore p v i) := by
    rw [← size] at inside
    rw [getElem?_pastMisses _ _ _ inside, zero_add, zero_add, ← Route.waitingBefore_eq,
      ← Route.latenessBefore_eq]
  have future {i : Nat} (inside : i ≤ route.length) :
      (futureMisses (route.endMiss v) (route.timed.map (missAt p v.departure)))[i]? =
        some ⟨route.waitingFrom p i, route.latenessFrom p v i⟩ := by
    rw [← size] at inside
    rw [getElem?_futureMisses _ _ inside, ← List.map_drop, filterMap_early, filterMap_late]
    rfl
  constructor
  case start_eq =>
    rw [made.start_eq, List.head?_eq_getElem?, future (Nat.zero_le _), Option.map_some]
    rfl
  case end_eq =>
    rw [made.end_eq, List.getLast?_eq_getElem?, length_pastMisses, Nat.add_sub_cancel, size,
      past (Nat.le_refl _), Option.map_some]
    rw [Route.slack, Route.waitingFrom_length, Route.latenessFrom_length]
  case stop_eq =>
    intro i inside
    obtain ⟨_, _, _, _, _, _, before, behind, entered⟩ := made.stop_at i inside
    rw [past (Nat.le_of_lt inside)] at before
    rw [future (Nat.succ_le_of_lt inside)] at behind
    cases before
    cases behind
    rw [entered]
    rfl

/-- What the ledger holds about a route that is up to date. -/
theorem Plan.Current.slacks {plan : Plan Rat} {r : Nat} (current : plan.Current p r route)
    (driven : p.vehicle route.vehicle = .ok v) : (plan.ledger.entry r).Slacks p v route := by
  obtain ⟨entry, derived, equal⟩ := current.derived
  have slacks := RouteEntry.derive_slacks derived driven (Route.length_visits current.times)
  rw [← equal]
  exact ⟨slacks.start_eq, slacks.stop_eq, slacks.end_eq⟩

/-- The windows of a whole route cost what was waited and what was late by its end. -/
theorem Route.windowCost_eq (times : route.reschedule p pool = .ok route)
    (driven : p.vehicle route.vehicle = .ok v) (weight : Rat) :
    route.windowCost p weight =
      .ok (weight * (route.waitingBefore p route.length + route.latenessBefore p v route.length)) := by
  have long := Route.length_visits times
  obtain ⟨misses, found⟩ :=
    missesOf_answers (fun _ => Route.stopLocation_of_times times) v.departure long
  obtain rfl : misses = route.timed.map (missAt p v.departure) := missesOf_eq_ok found long
  have whole : (route.timed.map (missAt p v.departure)).take route.length =
      route.timed.map (missAt p v.departure) :=
    List.take_of_length_le (by simp [Route.timed, Route.length])
  rw [Route.waitingBefore_eq v.departure, Route.latenessBefore_eq, whole]
  simp only [Route.windowCost, bind_eq_ok]
  refine ⟨v, driven, _, missedSeconds_eq found 0, congrArg Except.ok ?_⟩
  rw [zero_add, mul_comm]

end

/-! ### Reading the slack at a gap -/

section

variable {p : Problem Rat} {plan : Plan Rat} {v : Vehicle Rat} {route : Route} {t : Trial Rat}

/-- What is missed before a gap is read at the stop behind it. -/
theorem Trial.pastSlack?_eq (found : plan.routes[t.route]? = some route)
    (slacks : (plan.ledger.entry t.route).Slacks p v route)
    (inside : t.gap.position ≤ route.length) :
    ∃ j, t.pastSlack? plan = .ok (some (route.slack p v t.gap.position j)) := by
  simp only [pastSlack?, route_eq_ok.mpr found, bind, Except.bind]
  rcases Nat.lt_or_eq_of_le inside with within | last
  · refine ⟨t.gap.position + 1, ?_⟩
    rw [if_neg (Nat.not_le.mpr within)]
    exact congrArg Except.ok (slacks.stop_eq t.gap.position within)
  · refine ⟨route.length, ?_⟩
    rw [if_pos (Nat.le_of_eq last.symm), last]
    exact congrArg Except.ok slacks.end_eq

/-- What may be missed behind a gap is read at the stop before it. -/
theorem Trial.futureSlack?_eq (slacks : (plan.ledger.entry t.route).Slacks p v route)
    (inside : t.gap.position ≤ route.length)
    (previous : route.before t.gap.position = .ok t.gap.previous) :
    ∃ i, t.futureSlack? plan = some (route.slack p v i t.gap.position) := by
  cases position : t.gap.position with
  | zero =>
      rw [position] at previous
      refine ⟨0, ?_⟩
      rw [futureSlack?, ← Except.ok.inj previous]
      exact slacks.start_eq
  | succ i =>
      rw [position] at previous inside
      simp only [Route.before, bind_eq_ok] at previous
      obtain ⟨stop, _, equal⟩ := previous
      refine ⟨i, ?_⟩
      rw [futureSlack?, ← Except.ok.inj equal, position]
      exact slacks.stop_eq i inside

end

/-- In each gap of a route that was refreshed, the past slack is what windows before the gap are
missed by, added up, and the future slack is the most by which one behind it is missed.  The slack at
the end holds what missed windows cost. -/
theorem slack_at_gaps {p : Problem Rat} {plan next : Plan Rat} {r : Nat}
    (done : plan.refreshRoute p r = .ok next) :
    ∃ route v, next.routes[r]? = some route ∧ p.vehicle route.vehicle = .ok v ∧
      (∀ t : Trial Rat, t.route = r → t.gap.position ≤ route.length →
        route.before t.gap.position = .ok t.gap.previous →
        ∃ past future, t.pastSlack? next = .ok (some past) ∧ t.futureSlack? next = some future ∧
          past.pastWaiting = route.waitingBefore p t.gap.position ∧
          past.pastLateness = route.latenessBefore p v t.gap.position ∧
          future.futureWaiting = route.waitingFrom p t.gap.position ∧
          future.futureLateness = route.latenessFrom p v t.gap.position) ∧
      ∃ last, next.ledger.endSlack? r = some last ∧ ∀ weight, route.windowCost p weight =
        .ok (weight * (last.pastWaiting + last.pastLateness)) := by
  obtain ⟨_, _, _, found, _⟩ := refreshRoute_eq_ok done
  obtain ⟨route, current, _⟩ := current_refreshRoute found done
  obtain ⟨v, _, _, _, _, _, _, departs, _⟩ := current.split (List.nil_append route.stops).symm
  have slacks := current.slacks departs.driven
  refine ⟨route, v, current.found, departs.driven, ?_, _, slacks.end_eq, ?_⟩
  · rintro t rfl inside previous
    obtain ⟨j, past⟩ := Trial.pastSlack?_eq current.found slacks inside
    obtain ⟨i, future⟩ := Trial.futureSlack?_eq slacks inside previous
    exact ⟨_, _, past, future, rfl, rfl, rfl, rfl⟩
  · intro weight
    exact Route.windowCost_eq current.times departs.driven weight

/-- Two jobs, of which the first has to be waited for and the second is reached late, as is the
depot. -/
def windowedJobs : Problem Rat :=
  { twoJobs with
    destinations := #[
      ⟨"a", 1, ⟨[5]⟩, .zero, ⟨some ⟨2000000000⟩, some ⟨5000000000⟩⟩⟩,
      ⟨"b", 2, ⟨[10]⟩, .zero, ⟨some ⟨1000000000⟩, some ⟨3500000000⟩⟩⟩]
    vehicles := #[⟨"v", 0, some ⟨none, some ⟨6000000000⟩⟩, ⟨[10]⟩, some ⟨[5]⟩, some 0, true, none,
      none⟩] }

/-- Between the first job and the base behind it, one second was waited.  The second job is reached
four seconds after its window opens and one and a half after it closes. -/
theorem slack_at_gaps_windowedJobs :
    ∃ (plan next : Plan Rat) (route : Route) (t : Trial Rat) (past future : Slack Rat),
      plan.refreshRoute windowedJobs 0 = .ok next ∧ next.routes[0]? = some route ∧
      route.stops = [.destination 0, .base 0, .destination 1] ∧ t.gap.position = 1 ∧
      t.pastSlack? next = .ok (some past) ∧ t.futureSlack? next = some future ∧
      past.pastWaiting = 1 ∧ past.pastLateness = 0 ∧
      future.futureWaiting = some (-4) ∧ future.futureLateness = some (3 / 2) := by
  have run : (do
      let empty ← Plan.empty windowedJobs
      let first ← empty.insertStop 0 0 (.destination 0)
      let closed ← first.insertStop 0 1 (.base 0)
      let placed ← closed.placeBase 0 3 .zero
      let plan ← placed.insertStop 0 2 (.destination 1)
      let next ← plan.refreshRoute windowedJobs 0
      let route ← next.route 0
      let v ← windowedJobs.vehicle route.vehicle
      let departure ← route.departure windowedJobs
      let gaps ← Walk.gaps windowedJobs next.pool v (.start v departure) route.stops
      let gap ← orOutOfTable gaps[1]?
      let previous ← route.before 1
      .ok (decide (previous = gap.previous ∧ gap.position = 1), route.stops,
        decide (route.waitingBefore windowedJobs 1 = 1 ∧ route.latenessBefore windowedJobs v 1 = 0 ∧
          route.waitingFrom windowedJobs 1 = some (-4) ∧
          route.latenessFrom windowedJobs v 1 = some (3 / 2)))) =
      Except.ok (true, [.destination 0, .base 0, .destination 1], true) := by
    decide +kernel
  simp only [bind_eq_ok, orOutOfTable_eq_ok, route_eq_ok, Except.ok.injEq, Prod.mk.injEq,
    decide_eq_true_eq] at run
  obtain ⟨_, _, _, _, _, _, _, _, plan, _, next, refreshed, route, found, v, driven, _, _, _, _, gap,
    _, previous, stands, ⟨rfl, position⟩, stops, waited, late, waits, lateBehind⟩ := run
  obtain ⟨_, _, foundAgain, drivenAgain, each, _⟩ := slack_at_gaps refreshed
  cases found.symm.trans foundAgain
  cases driven.symm.trans drivenAgain
  let t : Trial Rat := ⟨0, v, .destination 1, gap, .empty, none⟩
  have inside : t.gap.position ≤ route.length := by
    rw [position, Route.length, stops]
    decide
  obtain ⟨past, future, pastSlack, futureSlack, pastWaiting, pastLateness, futureWaiting,
    futureLateness⟩ := each t rfl inside (position ▸ stands)
  rw [position] at pastWaiting pastLateness futureWaiting futureLateness
  exact ⟨plan, next, route, t, past, future, refreshed, found, stops, position, pastSlack, futureSlack,
    pastWaiting.trans waited, pastLateness.trans late, futureWaiting.trans waits,
    futureLateness.trans lateBehind⟩

end Haulage

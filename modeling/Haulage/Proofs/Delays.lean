/-
Module: Haulage.Proofs.Delays
Purpose: A delay is passed on along a route and grows nowhere.  So the slack behind a gap says how
  early and how late windows can be reached at worst when a job goes into the gap.
Main exports: Instant.Delayed, Route.visitsFrom_delayed, Trial.delays, Slack.Bounds,
  Slack.bounds_of_delayed, insertion_bounded
-/
import Mathlib.Tactic.Linarith
import Haulage.Proofs.Fresh
import Haulage.Proofs.Realised
import Haulage.Proofs.Slack

namespace Haulage

open Plan

/-! ### Delayed times -/

/-- A time that comes no earlier than before, and later by no more than some duration. -/
structure Instant.Delayed (d : Duration) (was now : Instant) : Prop where
  le : was.nanoseconds ≤ now.nanoseconds
  within : now.nanoseconds ≤ was.nanoseconds + d.nanoseconds

/-- Visits of which each is reached later by no more than some duration. -/
def DelayedVisits (d : Duration) : List Visit → List Visit → Prop :=
  List.Forall₂ fun was now => was.arrival.Delayed d now.arrival

section

variable {d : Duration} {was now left leaving : Instant}

theorem Instant.Delayed.after {span : Duration} (delayed : was.Delayed d now)
    (first : was.after span = .ok left) (second : now.after span = .ok leaving) :
    left.Delayed d leaving := by
  have ends := Instant.after_eq_ok first
  have endsLater := Instant.after_eq_ok second
  have le := delayed.le
  have within := delayed.within
  constructor
  · omega
  · omega

theorem Instant.delayed_since (positive : 0 ≤ (now.since was).nanoseconds) :
    was.Delayed (now.since was) now := by
  rw [since] at positive ⊢
  constructor
  · exact Int.sub_nonneg.mp positive
  · show now.nanoseconds ≤ was.nanoseconds + (now.nanoseconds - was.nanoseconds)
    omega

/-- Waiting for a window to open makes up for some of a delay. -/
theorem TimeWindow.serviceStart_delayed (window : TimeWindow) (delayed : was.Delayed d now) :
    (window.serviceStart was).Delayed d (window.serviceStart now) := by
  have le := delayed.le
  have within := delayed.within
  unfold serviceStart
  cases window.opens with
  | none => exact delayed
  | some opening =>
      simp only [Instant.lt_iff]
      constructor
      · split <;> split <;> omega
      · split <;> split <;> omega

variable {α : Type} [Quantity α] {p : Problem α} {pool : BasePool} {v : Vehicle α}

theorem Problem.arrival_delayed {origin target : Option Nat} (delayed : was.Delayed d now)
    (first : p.arrival v origin target was = .ok left)
    (second : p.arrival v origin target now = .ok leaving) : left.Delayed d leaving := by
  rw [arrival, bind_eq_ok] at first second
  obtain ⟨span, travels, reached⟩ := first
  obtain ⟨_, again, reachedLater⟩ := second
  cases travels.symm.trans again
  exact delayed.after reached reachedLater

omit [Quantity α] in
theorem Problem.endOfStop_delayed {stop : Stop} (delayed : was.Delayed d now)
    (first : p.endOfStop pool stop was = .ok left)
    (second : p.endOfStop pool stop now = .ok leaving) : left.Delayed d leaving := by
  cases stop with
  | destination job =>
      rw [endOfStop, bind_eq_ok] at first second
      obtain ⟨served, found, ends⟩ := first
      obtain ⟨_, again, endsLater⟩ := second
      cases found.symm.trans again
      exact (served.window.serviceStart_delayed delayed).after ends endsLater
  | base b =>
      rw [endOfStop, bind_eq_ok] at first second
      obtain ⟨base, found, ends⟩ := first
      obtain ⟨_, again, endsLater⟩ := second
      cases found.symm.trans again
      exact delayed.after ends endsLater

/-! ### Delays along a route -/

/-- A delay is passed on from stop to stop, and no stop adds to it. -/
theorem Route.visitsFrom_delayed {place last lastNow : Option Nat} {stops : List Stop}
    {visits visitsNow : List Visit} {end' endNow : Instant} (delayed : left.Delayed d leaving)
    (first : visitsFrom p pool v place left stops = .ok (visits, last, end'))
    (second : visitsFrom p pool v place leaving stops = .ok (visitsNow, lastNow, endNow)) :
    last = lastNow ∧ DelayedVisits d visits visitsNow ∧ end'.Delayed d endNow := by
  induction stops generalizing place left leaving visits visitsNow with
  | nil =>
      cases first
      cases second
      exact ⟨rfl, .nil, delayed⟩
  | cons stop rest inductionHypothesis =>
      simp only [visitsFrom, bind_eq_ok] at first second
      obtain ⟨lies, there, arrival, arrives, leaves, finished, _, _, ⟨later, _⟩, tail, equal⟩ := first
      obtain ⟨_, thereToo, arrivalNow, arrivesNow, leavesNow, finishedNow, _, _, ⟨laterNow, _⟩,
        tailNow, equalNow⟩ := second
      cases equal
      cases equalNow
      cases there.symm.trans thereToo
      have reached := Problem.arrival_delayed delayed arrives arrivesNow
      obtain ⟨same, visits, ends⟩ := inductionHypothesis
        (Problem.endOfStop_delayed reached finished finishedNow) tail tailNow
      exact ⟨same, .cons reached visits, ends⟩

/-- Where all bases have locations, it does not matter where the vehicle comes from.  All that counts
is by how much later the first stop, or the end, is reached. -/
theorem Route.delayed_of_reached {place placeNow last lastNow : Option Nat} {stops : List Stop}
    {visits visitsNow : List Visit} {end' endNow finish finishNow : Instant}
    (locates : pool.Locates stops)
    (first : visitsFrom p pool v place left stops = .ok (visits, last, end'))
    (finishes : p.arrival v last v.endLocation end' = .ok finish)
    (second : visitsFrom p pool v placeNow leaving stops = .ok (visitsNow, lastNow, endNow))
    (finishesNow : p.arrival v lastNow v.endLocation endNow = .ok finishNow)
    (reached : ((visits.head?.map (·.arrival)).getD finish).Delayed d
      ((visitsNow.head?.map (·.arrival)).getD finishNow)) :
    DelayedVisits d visits visitsNow ∧ finish.Delayed d finishNow := by
  cases stops with
  | nil =>
      cases first
      cases second
      exact ⟨.nil, reached⟩
  | cons stop rest =>
      simp only [visitsFrom, bind_eq_ok] at first second
      obtain ⟨_, there, arrival, arrives, leaves, finished, _, _, ⟨later, _⟩, tail, equal⟩ := first
      obtain ⟨_, thereToo, arrivalNow, arrivesNow, leavesNow, finishedNow, _, _, ⟨laterNow, _⟩,
        tailNow, equalNow⟩ := second
      cases equal
      cases equalNow
      cases there.symm.trans thereToo
      obtain ⟨location, rfl⟩ := locates.stopLocation List.mem_cons_self there
      obtain ⟨same, behind, ends⟩ := visitsFrom_delayed
        (Problem.endOfStop_delayed reached finished finishedNow) tail tailNow
      cases same
      exact ⟨.cons reached behind, Problem.arrival_delayed ends finishes finishesNow⟩

end

/-! ### Positions behind a delay -/

section

variable {d : Duration} {early earlyNow late later : List Visit} {route now : Route}

theorem Route.arrivalAt_delayed (visits : route.visits = early ++ late)
    (visitsNow : now.visits = earlyNow ++ later) (delayed : DelayedVisits d late later)
    (ends : route.endArrival.Delayed d now.endArrival) (i : Nat) :
    (route.arrivalAt (early.length + i)).Delayed d (now.arrivalAt (earlyNow.length + i)) := by
  rw [arrivalAt, arrivalAt, visits, visitsNow, List.getElem?_append_right (Nat.le_add_right _ _),
    List.getElem?_append_right (Nat.le_add_right _ _), Nat.add_sub_cancel_left,
    Nat.add_sub_cancel_left]
  clear visits visitsNow
  induction delayed generalizing i with
  | nil => exact ends
  | cons head _ inductionHypothesis =>
      cases i with
      | zero => exact head
      | succ i => exact inductionHypothesis i

theorem Route.windowsFrom_append {α : Type} (p : Problem α) {before after : List Stop}
    (split : route.stops = before ++ after) (visits : route.visits = early ++ late)
    (long : early.length = before.length) :
    route.windowsFrom p before.length = windowsOf p (after.zip late) := by
  rw [windowsFrom, timed, split, visits, List.zip_append long.symm, List.drop_left']
  rw [List.length_zip, long, Nat.min_self]

theorem windowsOf_delayed {α : Type} (p : Problem α) (stops : List Stop)
    (delayed : DelayedVisits d late later) :
    List.Forall₂ (fun was now => now.1 = was.1 ∧ was.2.Delayed d now.2)
      (windowsOf p (stops.zip late)) (windowsOf p (stops.zip later)) := by
  induction delayed generalizing stops with
  | nil => simp [windowsOf]
  | cons head _ inductionHypothesis =>
      cases stops with
      | nil => exact .nil
      | cons stop rest =>
          have later := inductionHypothesis rest
          rw [List.zip_cons_cons, List.zip_cons_cons, windowsOf_cons, windowsOf_cons]
          cases stop.window? p with
          | none => exact later
          | some window => exact .cons ⟨rfl, head⟩ later

end

/-! ### Seconds of a delay -/

theorem Duration.seconds_eq (d : Duration) : (d.seconds : Rat) = d.nanoseconds / 1000000000 := by
  have parts : ((d.wholeSeconds * perSecond + d.subsecond : Int) : Rat) = d.nanoseconds :=
    congrArg Int.cast d.wholeSeconds_add_subsecond
  have scale : (perSecond : Rat) = 1000000000 := rfl
  push_cast at parts
  show (d.wholeSeconds : Rat) + d.subsecond / perSecond = _
  rw [← parts, scale]
  ring

theorem Instant.seconds_since (t u : Instant) :
    ((t.since u).seconds : Rat) = (t.nanoseconds - u.nanoseconds) / 1000000000 := by
  rw [Duration.seconds_eq, since]
  push_cast
  rfl

section

variable {d : Duration} {was now : Instant}

/-- A single time is delayed by no more seconds than were allowed for. -/
theorem Instant.Delayed.seconds (delayed : was.Delayed d now) :
    0 ≤ ((now.since was).seconds : Rat) ∧ ((now.since was).seconds : Rat) ≤ d.seconds := by
  have le : (was.nanoseconds : Rat) ≤ now.nanoseconds := Int.cast_le.mpr delayed.le
  have within : (now.nanoseconds : Rat) ≤ was.nanoseconds + d.nanoseconds := by
    exact_mod_cast delayed.within
  rw [Instant.seconds_since, Duration.seconds_eq]
  constructor
  · linarith
  · linarith

/-- What comes too late comes later by at most the delay. -/
theorem Instant.Delayed.since_le (delayed : was.Delayed d now) (due : Instant) :
    ((now.since due).seconds : Rat) ≤ (was.since due).seconds + d.seconds := by
  have within := delayed.seconds.2
  rw [Instant.seconds_since] at within
  rw [Instant.seconds_since, Instant.seconds_since]
  linarith

/-- What comes too early makes up for at most the delay. -/
theorem Instant.Delayed.le_since (delayed : was.Delayed d now) (opening : Instant) :
    ((opening.since was).seconds : Rat) - d.seconds ≤ (opening.since now).seconds := by
  have within := delayed.seconds.2
  rw [Instant.seconds_since] at within
  rw [Instant.seconds_since, Instant.seconds_since]
  linarith

end

/-! ### What the slack allows for -/

/-- The most seconds of lateness behind a gap after a delay, by the slack. -/
def Slack.latenessAfter (s : Slack Rat) (delay : Rat) : Rat :=
  (s.futureLateness.map fun late => max 0 (late + delay)).getD 0

/-- The most seconds of waiting that are left behind a gap after a delay, by the slack. -/
def Slack.waitingAfter (s : Slack Rat) (delay : Rat) : Rat :=
  (s.futureWaiting.map fun waiting => max 0 (waiting - delay)).getD 0

section

variable {xs ys : List Rat} {x y delay : Rat}

theorem max_zero_le_of_mem (member : x ∈ xs) (later : y ≤ x + delay) :
    max 0 y ≤ (xs.max?.map fun most => max 0 (most + delay)).getD 0 := by
  obtain ⟨most, found⟩ := Option.isSome_iff_exists.mp (List.isSome_max?_of_mem member)
  have under : x ≤ most := (List.max?_eq_some_iff.mp found).2 x member
  rw [found, Option.map_some, Option.getD_some]
  exact max_le_max (le_refl 0) (by linarith)

theorem max?_sub_le (each : ∀ x ∈ xs, ∃ y ∈ ys, max 0 (x - delay) ≤ y) (positive : ∀ y ∈ ys, 0 ≤ y) :
    (xs.max?.map fun most => max 0 (most - delay)).getD 0 ≤ ys.max?.getD 0 := by
  have under (y : Rat) (member : y ∈ ys) : y ≤ ys.max?.getD 0 := by
    obtain ⟨most, found⟩ := Option.isSome_iff_exists.mp (List.isSome_max?_of_mem member)
    rw [found]
    exact (List.max?_eq_some_iff.mp found).2 y member
  cases found : xs.max? with
  | some most =>
      obtain ⟨y, member, le⟩ := each most (List.max?_mem found)
      exact le.trans (under y member)
  | none =>
      cases ys with
      | nil => exact le_refl 0
      | cons y ys => exact (positive y List.mem_cons_self).trans (under y List.mem_cons_self)

end

/-- How a route is delayed that has a new stop at a position.  All stops behind it and the end are
reached no earlier, and later by no more than the delay.  No reachable window there and no shift is
missed by more than the slack allows for, and somewhere there at least as much waiting is left. -/
structure Slack.Bounds (p : Problem Rat) (v : Vehicle Rat) (s : Slack Rat) (delay : Rat)
    (position : Nat) (route now : Route) : Prop where
  arrivals : ∀ i, position ≤ i → i ≤ route.length →
    0 ≤ ((now.arrivalAt (i + 1)).since (route.arrivalAt i)).seconds (α := Rat) ∧
      ((now.arrivalAt (i + 1)).since (route.arrivalAt i)).seconds ≤ delay
  lateness : ∀ window arrival, (window, arrival) ∈ now.windowsFrom p (position + 1) →
    window.isReachableFrom v.departure = true → window.lateness arrival ≤ s.latenessAfter delay
  endLateness : missed (now.endMiss v) ≤ s.latenessAfter delay
  waiting : s.waitingAfter delay ≤ (((now.windowsFrom p (position + 1)).map
    fun (window, arrival) => window.earliness arrival).max?).getD 0

section

variable {p : Problem Rat} {v : Vehicle Rat} {s : Slack Rat} {d : Duration} {route now : Route}
  {delay bound : Rat}

theorem missed_le {miss : Option Rat} (positive : 0 ≤ bound)
    (each : ∀ late, miss = some late → max 0 late ≤ bound) : missed miss ≤ bound := by
  cases miss with
  | none => exact positive
  | some late =>
      have under := each late rfl
      rw [max_comm, ← Quantity.positivePart_eq_max] at under
      exact under

theorem le_missed {early : Rat} : max 0 early ≤ missed (some early) := by
  rw [max_comm, ← Quantity.positivePart_eq_max]
  exact le_refl _

theorem missed_nonneg (miss : Option Rat) : 0 ≤ missed miss := by
  cases miss with
  | none => exact le_refl 0
  | some late => exact (le_max_left 0 late).trans le_missed

theorem Slack.latenessAfter_nonneg (s : Slack Rat) (delay : Rat) : 0 ≤ s.latenessAfter delay := by
  rw [latenessAfter]
  cases s.futureLateness with
  | none => exact le_refl 0
  | some late => exact le_max_left 0 _

theorem exists_of_forall₂ {β γ : Type} {R : β → γ → Prop} {xs : List β} {ys : List γ} {x : β}
    (all : List.Forall₂ R xs ys) (member : x ∈ xs) : ∃ y ∈ ys, R x y := by
  induction all with
  | nil => cases member
  | cons head _ inductionHypothesis =>
      rcases List.mem_cons.mp member with rfl | later
      · exact ⟨_, List.mem_cons_self, head⟩
      · obtain ⟨y, among, related⟩ := inductionHypothesis later
        exact ⟨y, List.mem_cons_of_mem _ among, related⟩

/-- The slack of the old route allows for what a delay does to the windows behind it. -/
theorem Slack.bounds_of_delayed {position : Nat}
    (waiting : s.futureWaiting = route.waitingFrom p position)
    (lateness : s.futureLateness = route.latenessFrom p v position)
    (arrivals : ∀ i, position ≤ i → i ≤ route.length →
      (route.arrivalAt i).Delayed d (now.arrivalAt (i + 1)))
    (ends : route.endArrival.Delayed d now.endArrival)
    (windows : List.Forall₂ (fun was now => now.1 = was.1 ∧ was.2.Delayed d now.2)
      (route.windowsFrom p position) (now.windowsFrom p (position + 1))) :
    s.Bounds p v d.seconds position route now := by
  have reached {late : Rat} {later : Rat} (among : late ∈
      ((reachableFrom v (route.windowsFrom p position)).filterMap fun (window, arrival) =>
        window.endMiss arrival) ++ (route.endMiss v).toList) (le : later ≤ late + d.seconds) :
      max 0 later ≤ s.latenessAfter d.seconds := by
    rw [latenessAfter, lateness, Route.latenessFrom]
    exact max_zero_le_of_mem among le
  constructor
  case arrivals =>
    intro i behind inside
    exact (arrivals i behind inside).seconds
  case lateness =>
    intro window arrival member reachable
    obtain ⟨⟨_, was⟩, among, rfl, delayed⟩ := exists_of_forall₂ windows.flip member
    rw [lateness_eq_missed]
    apply missed_le (s.latenessAfter_nonneg _)
    intro late miss
    obtain ⟨closing, closes, rfl⟩ := Option.map_eq_some_iff.mp miss
    refine reached (List.mem_append_left _ ?_) (delayed.since_le closing)
    refine List.mem_filterMap.mpr ⟨_, List.mem_filter.mpr ⟨among, reachable⟩, ?_⟩
    exact Option.map_eq_some_iff.mpr ⟨closing, closes, rfl⟩
  case endLateness =>
    apply missed_le (s.latenessAfter_nonneg _)
    intro late miss
    obtain ⟨latest, shift, rfl⟩ := Option.map_eq_some_iff.mp miss
    refine reached (List.mem_append_right _ ?_) (ends.since_le latest)
    exact Option.mem_toList.mpr (Option.map_eq_some_iff.mpr ⟨latest, shift, rfl⟩)
  case waiting =>
    rw [waitingAfter, waiting, Route.waitingFrom]
    apply max?_sub_le
    · intro early member
      obtain ⟨⟨window, was⟩, among, miss⟩ := List.mem_filterMap.mp member
      obtain ⟨opening, opens, rfl⟩ := Option.map_eq_some_iff.mp miss
      obtain ⟨⟨windowNow, later⟩, amongNow, same, delayed⟩ := exists_of_forall₂ windows among
      obtain rfl : windowNow = window := same
      have missNow : (windowNow.startMiss later : Option Rat) = some (opening.since later).seconds :=
        Option.map_eq_some_iff.mpr ⟨opening, opens, rfl⟩
      refine ⟨_, List.mem_map.mpr ⟨_, amongNow, rfl⟩, ?_⟩
      show _ ≤ windowNow.earliness later
      rw [earliness_eq_missed, missNow]
      exact (max_le_max (le_refl 0) (delayed.le_since opening)).trans le_missed
    · intro early member
      obtain ⟨⟨window, later⟩, _, rfl⟩ := List.mem_map.mp member
      show 0 ≤ window.earliness later
      rw [earliness_eq_missed]
      exact missed_nonneg _

end

/-! ### A job in a gap -/

section

variable {α : Type} [Quantity α] {p : Problem α} {pool : BasePool} {route now : Route} {t : Trial α}

/-- A stop that goes into a gap delays the route behind the gap by as much as was worked out. -/
theorem Trial.delays {before after : List Stop} {departure : Instant} {location : Nat}
    (times : route.reschedule p pool = .ok route) (timesNow : now.reschedule p pool = .ok now)
    (vehicle : now.vehicle = route.vehicle) (fixed : now.fixedDeparture = route.fixedDeparture)
    (driven : p.vehicle route.vehicle = .ok t.vehicle) (departs : route.departure p = .ok departure)
    (locates : pool.Locates after) (split : route.stops = before ++ after)
    (stops : now.stops = before ++ t.newStop.stop :: after)
    (met : t.gap.Met p pool t.vehicle departure before after)
    (stands : t.newStop.Stands p pool location) :
    ∃ early visit late later, early.length = before.length ∧ route.visits = early ++ late ∧
      now.visits = (early ++ [visit]) ++ later ∧
      let d := (now.arrivalAt (before.length + 1)).since (route.arrivalAt before.length)
      t.delay p = .ok d.seconds ∧
        (0 ≤ d.nanoseconds → DelayedVisits d late later ∧ route.endArrival.Delayed d now.endArrival) := by
  obtain ⟨early, comes⟩ := met.comes
  have front : route.Departs p pool before t.vehicle early t.gap.previousLocation
      t.gap.previousDeparture := ⟨driven, departure, departs, comes⟩
  obtain ⟨_, _, _, _, late, _, _, departsThere, visited, ends, visits⟩ :=
    Route.departs_of_times times split
  obtain ⟨rfl, rfl, rfl, rfl⟩ := front.unique departsThere
  obtain ⟨_, _, _, _, _, _, _, departsNow, visitedNow, endsNow, visitsNow⟩ :=
    Route.departs_of_times timesNow stops
  obtain ⟨rfl, rfl, rfl, rfl⟩ := (front.congr vehicle fixed fun _ _ => rfl).unique departsNow
  obtain ⟨visit, later, rfl, _, leaves, behind⟩ := Trial.reaches stands visitedNow
  have parts : now.visits = (early ++ [visit]) ++ later := by simp [visitsNow]
  have reached := Route.arrivalAt_of_headsFor visits visited ends met.heads
  have heads : p.headsFor pool t.vehicle (some location) after = .ok t.gap.nextLocation :=
    locates.headsFor (fun _ _ => rfl) met.heads
  have reachedNow := Route.arrivalAt_of_headsFor parts behind endsNow heads
  rw [List.length_append, List.length_singleton] at reachedNow
  rw [← front.length_eq]
  refine ⟨early, visit, late, later, rfl, visits, parts, ?_, fun positive => ?_⟩
  · simp only [Trial.delay, bind_eq_ok]
    exact ⟨_, reached, location, stands.location_eq, _, leaves, _, reachedNow, rfl⟩
  · apply Route.delayed_of_reached locates visited ends behind endsNow
    have first := Route.arrivalAt_append visits
    have second := Route.arrivalAt_append parts
    rw [List.length_append, List.length_singleton] at second
    rw [← first, ← second]
    exact Instant.delayed_since positive

end

theorem Duration.nanoseconds_nonneg {d : Duration} (positive : 0 ≤ (d.seconds : Rat)) :
    0 ≤ d.nanoseconds := by
  rw [Duration.seconds_eq] at positive
  have scaled : (0 : Rat) ≤ d.nanoseconds := by linarith
  exact_mod_cast scaled

section

variable {p : Problem Rat} {plan inserted next : Plan Rat} {route : Route} {t : Trial Rat} {job : Nat}
  {departure : Instant} {before after : List Stop}

/-- A job that goes into a gap of a route that is up to date. -/
theorem Plan.Current.inserted_bounded (current : plan.Current p t.route route)
    (driven : p.vehicle route.vehicle = .ok t.vehicle) (departs : route.departure p = .ok departure)
    (locates : plan.pool.Locates after) (split : route.stops = before ++ after)
    (met : t.gap.Met p plan.pool t.vehicle departure before after)
    (tried : t.newStop = .destination job)
    (inserts : plan.insertStop t.route before.length (.destination job) = .ok inserted)
    (refreshed : inserted.refreshRoute p t.route = .ok next) :
    ∃ delay slack now, t.delay p = .ok delay ∧ t.futureSlack? plan = some slack ∧
      next.routes[t.route]? = some now ∧
      (0 ≤ delay → slack.Bounds p t.vehicle delay before.length route now) := by
  have puts := inserts_destination current.found split inserts
  obtain ⟨now, currentNow, vehicle, fixed, stops⟩ := current_refreshRoute puts.found refreshed
  have pool : next.pool = plan.pool := by
    obtain ⟨_, _, _, _, rfl⟩ := insertStop_destination.mp inserts
    exact (refreshRoute_keeps refreshed).2.1
  have timesNow := currentNow.times
  rw [pool] at timesNow
  have among : Stop.destination job ∈ now.stops :=
    stops ▸ List.mem_append_right before List.mem_cons_self
  obtain ⟨_, lies⟩ := Route.stopLocation_of_times timesNow among
  obtain ⟨d, served, _⟩ := stopLocation_destination.mp lies
  have stands : t.newStop.Stands p plan.pool d.location :=
    tried ▸ NewStop.stands_destination served
  have stopsNow : now.stops = before ++ t.newStop.stop :: after := by
    rw [tried]
    exact stops
  obtain ⟨early, visit, late, later, long, visits, visitsNow, delay, delayed⟩ :=
    Trial.delays current.times timesNow vehicle fixed driven departs locates split stopsNow met stands
  have inside : t.gap.position ≤ route.length := by
    rw [met.position_eq, Route.length, split, List.length_append]
    exact Nat.le_add_right _ _
  obtain ⟨_, slack⟩ := Trial.futureSlack?_eq (current.slacks driven) inside
    (met.position_eq ▸ met.before_eq split)
  refine ⟨_, _, now, delay, slack, currentNow.found, fun positive => ?_⟩
  obtain ⟨behind, ends⟩ := delayed (Duration.nanoseconds_nonneg positive)
  rw [met.position_eq]
  apply Slack.bounds_of_delayed rfl rfl
  case ends => exact ends
  case arrivals =>
    intro i further _
    rw [← long] at further
    obtain ⟨k, rfl⟩ := Nat.exists_eq_add_of_le further
    have reached := Route.arrivalAt_delayed visits visitsNow behind ends k
    rwa [List.length_append, List.length_singleton, Nat.add_right_comm] at reached
  case windows =>
    have parts : now.stops = (before ++ [t.newStop.stop]) ++ after := by simp [stopsNow]
    have windowsNow := Route.windowsFrom_append p parts visitsNow (by simp [long])
    rw [List.length_append, List.length_singleton] at windowsNow
    rw [Route.windowsFrom_append p split visits long, windowsNow]
    exact windowsOf_delayed p after behind

end

/-- Where nothing is out of date and all routed bases have locations, a job is tried out in the gaps of
a route.  If it delays the next stop there, then after it was inserted the route behind it is delayed
by no more, and the slack that was read for the gap bounds how windows are missed. -/
theorem insertion_bounded {p : Problem Rat} {plan : Plan Rat} {r : Nat} {route : Route}
    (fresh : plan.refreshRoutes p = .ok plan)
    (located : ∀ i stops, plan.Visits i stops → plan.pool.Locates stops)
    (found : plan.routes[r]? = some route) :
    ∃ v departure gaps, p.vehicle route.vehicle = .ok v ∧ route.departure p = .ok departure ∧
      Walk.gaps p plan.pool v (.start v departure) route.stops = .ok gaps ∧
      ∀ (t : Trial Rat) (job : Nat), t.route = r → t.vehicle = v → t.newStop = .destination job →
        t.gap ∈ gaps → job ∈ plan.unassigned →
        ∃ inserted, plan.insertStop r t.gap.position (.destination job) = .ok inserted ∧
          ∀ next, inserted.refreshRoute p r = .ok next →
            ∃ delay slack now, t.delay p = .ok delay ∧ t.futureSlack? plan = some slack ∧
              next.routes[r]? = some now ∧
              (0 ≤ delay → slack.Bounds p v delay t.gap.position route now) := by
  obtain ⟨_, current⟩ := refreshRoutes_eq_self.mp fresh r (List.getElem?_eq_some_iff.mp found).1
  cases found.symm.trans current.found
  have times := current.times
  simp only [Route.reschedule, bind_eq_ok] at times
  obtain ⟨v, driven, departure, departs, visited, done, _⟩ := times
  obtain ⟨gaps, walked, _⟩ := Walk.gaps_answers (w := .start v departure) done
  refine ⟨v, departure, gaps, driven, departs, walked, ?_⟩
  rintro t job rfl rfl tried member waits
  obtain ⟨i, listed⟩ := List.mem_iff_getElem?.mp member
  obtain ⟨before, after, split, _, met⟩ := Walk.gap_met walked listed
  have inside : before.length ≤ route.stops.length := by
    rw [split, List.length_append]
    exact Nat.le_add_right _ _
  have locates : plan.pool.Locates after := by
    intro b member
    exact located _ _ (visits_of_route found) b (split ▸ List.mem_append_right before member)
  obtain ⟨inserted, inserts⟩ :
      ∃ inserted, plan.insertStop t.route before.length (.destination job) = .ok inserted :=
    ⟨_, insertStop_destination.mpr ⟨route, found, inside, waits, rfl⟩⟩
  rw [met.position_eq]
  exact ⟨inserted, inserts, fun next refreshed =>
    current.inserted_bounded driven departs locates split met tried inserts refreshed⟩

/-- The second job goes in front of the first one, which is reached two seconds later.  One of them is
made up for, since the first job had to be waited for. -/
theorem insertion_bounded_windowedJobs :
    ∃ (plan next : Plan Rat) (route now : Route) (v : Vehicle Rat) (t : Trial Rat) (slack : Slack Rat),
      plan.refreshRoutes windowedJobs = .ok plan ∧ plan.routes[0]? = some route ∧
      route.stops = [.destination 0, .base 0] ∧ t.gap.position = 0 ∧
      t.delay windowedJobs = .ok 2 ∧ t.futureSlack? plan = some slack ∧
      next.routes[0]? = some now ∧ now.stops = [.destination 1, .destination 0, .base 0] ∧
      slack.Bounds windowedJobs v 2 0 route now := by
  have run : (do
      let empty ← Plan.empty windowedJobs
      let served ← empty.insertStop 0 0 (.destination 0)
      let closed ← served.insertStop 0 1 (.base 0)
      let placed ← closed.placeBase 0 3 .zero
      let plan ← placed.refreshRoutes windowedJobs
      let again ← plan.refreshRoutes windowedJobs
      let route ← plan.route 0
      let v ← windowedJobs.vehicle route.vehicle
      let departure ← route.departure windowedJobs
      let gaps ← Walk.gaps windowedJobs plan.pool v (.start v departure) route.stops
      let gap ← orOutOfTable gaps[0]?
      let delay ← (⟨0, v, .destination 1, gap, .empty, none⟩ : Trial Rat).delay windowedJobs
      let inserted ← plan.insertStop 0 0 (.destination 1)
      let next ← inserted.refreshRoute windowedJobs 0
      let now ← next.route 0
      .ok (decide (again = plan ∧ gap.position = 0 ∧ 1 ∈ plan.unassigned ∧ delay = 2),
        plan.itineraries, plan.pool.locationOf 0, now.stops)) =
      Except.ok (true, [(0, [.destination 0, .base 0])], some 3,
        [.destination 1, .destination 0, .base 0]) := by
    decide +kernel
  simp only [bind_eq_ok, orOutOfTable_eq_ok, route_eq_ok, Except.ok.injEq, Prod.mk.injEq,
    decide_eq_true_eq] at run
  obtain ⟨_, _, _, _, _, _, _, _, _, _, plan, fresh, route, found, v, driven, departure, departs, gaps,
    walked, gap, listed, _, delays, inserted, inserts, next, refreshed, now, foundNow,
    ⟨rfl, position, waits, rfl⟩, itineraries, lies, stopsNow⟩ := run
  have located : ∀ i stops, plan.Visits i stops → plan.pool.Locates stops := by
    rintro i stops ⟨vehicle, visits⟩ b member
    rw [itineraries] at visits
    cases i with
    | zero =>
        cases visits
        obtain rfl : b = 0 := by simpa using member
        exact ⟨3, lies⟩
    | succ i => cases visits
  have stops : route.stops = [.destination 0, .base 0] := by
    have itinerary := itineraries_of_route found
    rw [itineraries, List.getElem?_cons_zero, Option.some.injEq, Prod.mk.injEq] at itinerary
    exact itinerary.2.symm
  obtain ⟨_, _, _, drivenToo, departsToo, walkedToo, each⟩ := insertion_bounded fresh located found
  cases driven.symm.trans drivenToo
  cases departs.symm.trans departsToo
  cases walked.symm.trans walkedToo
  let t : Trial Rat := ⟨0, v, .destination 1, gap, .empty, none⟩
  obtain ⟨_, insertsToo, bounded⟩ := each t 1 rfl rfl rfl (List.mem_of_getElem? listed) waits
  cases (position ▸ insertsToo).symm.trans inserts
  obtain ⟨_, slack, _, delaysToo, read, foundToo, bounds⟩ := bounded next refreshed
  cases delays.symm.trans delaysToo
  cases foundNow.symm.trans foundToo
  exact ⟨plan, next, route, now, v, t, slack, fresh, found, stops, position, delays, read, foundNow,
    stopsNow, position ▸ bounds (by decide)⟩

end Haulage

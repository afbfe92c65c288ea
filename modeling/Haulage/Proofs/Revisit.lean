/-
Module: Haulage.Proofs.Revisit
Purpose: Visiting a route a second time.  Each base was placed with a view to the stop that followed
  it at that time, so a second visit finds all as the first one found it as long as no trip was
  removed behind one that was placed.
Main exports: jobsIn, Plan.KeepsFront, Work.Chooses.again, Midway, Leaves, placeBases_leaves,
  Revisits, placeRoute_revisits
-/
import Haulage.Proofs.Current
import Haulage.Proofs.Removal
import Haulage.Proofs.Volumes
import Mathlib.Data.List.Nodup

namespace Haulage

variable {α : Type} [Quantity α]

open Attempt Plan

/-! ### Jobs of a route -/

/-- The jobs among some stops, in their order. -/
def jobsIn (stops : List Stop) : List Nat := stops.filterMap (·.job?)

@[simp] theorem jobsIn_nil : jobsIn [] = [] := rfl

@[simp] theorem jobsIn_append (before after : List Stop) :
    jobsIn (before ++ after) = jobsIn before ++ jobsIn after := List.filterMap_append

@[simp] theorem jobsIn_destination (job : Nat) (rest : List Stop) :
    jobsIn (.destination job :: rest) = job :: jobsIn rest := rfl

@[simp] theorem jobsIn_base (b : Nat) (rest : List Stop) :
    jobsIn (.base b :: rest) = jobsIn rest := rfl

@[simp] theorem jobsIn_destinations (jobs : List Nat) : jobsIn (jobs.map .destination) = jobs := by
  induction jobs with
  | nil => rfl
  | cons job jobs inductionHypothesis => rw [List.map_cons, jobsIn_destination, inductionHypothesis]

theorem mem_jobsIn {job : Nat} {stops : List Stop} :
    job ∈ jobsIn stops ↔ .destination job ∈ stops := by
  induction stops with
  | nil => simp
  | cons stop rest inductionHypothesis =>
      cases stop with
      | destination other => simp [inductionHypothesis]
      | base b => simp [inductionHypothesis]

/-- Where no stop occurs twice, no job is served twice. -/
theorem nodup_jobsIn {stops : List Stop} (once : stops.Nodup) : (jobsIn stops).Nodup := by
  refine List.Nodup.filterMap (fun first second job here there => ?_) once
  cases first with
  | destination a =>
      cases second with
      | destination b =>
          rw [Stop.job?, Option.mem_some_iff] at here there
          rw [here, there]
      | base b => cases there
  | base a => cases here

omit [Quantity α] in
/-- No job is served twice. -/
theorem Plan.Conserved.nodup_jobsIn {jobs bases r : Nat} {plan : Plan α} {stops : List Stop}
    (conserved : Conserved jobs bases plan) (visits : plan.Visits r stops) :
    (jobsIn stops).Nodup := by
  apply Haulage.nodup_jobsIn
  apply List.nodup_iff_count_le_one.mpr
  intro stop
  by_cases member : stop ∈ stops
  · exact (conserved.once_of_visits visits member).1.le
  · rw [List.count_eq_zero_of_not_mem member]
    exact Nat.zero_le 1

/-- Bases that close no trip serve no job. -/
theorem jobsIn_splitIdleBases (afterBase : Bool) (stops : List Stop) :
    jobsIn (splitIdleBases afterBase stops).1 = jobsIn stops := by
  induction stops generalizing afterBase with
  | nil => rfl
  | cons stop rest inductionHypothesis =>
      cases stop with
      | destination job => exact congrArg (job :: ·) (inductionHypothesis false)
      | base b =>
          cases afterBase with
          | true => exact inductionHypothesis true
          | false => exact inductionHypothesis true

/-- Where every base closes a trip with jobs, no base is idle. -/
theorem splitIdleBases_of_serves {served : List Nat} {stops : List Stop}
    (serves : ∀ t ∈ (tripsOf served stops).1, t.jobs ≠ []) :
    splitIdleBases served.isEmpty stops = (stops, []) := by
  induction stops generalizing served with
  | nil => rfl
  | cons stop rest inductionHypothesis =>
      cases stop with
      | destination job =>
          have later := inductionHypothesis serves
          have known : (served ++ [job]).isEmpty = false := by simp
          rw [known] at later
          simp only [splitIdleBases, later]
      | base b =>
          have behind : splitIdleBases ([] : List Nat).isEmpty rest = (rest, []) :=
            inductionHypothesis fun t member => serves t (List.mem_cons_of_mem _ member)
          have own : served ≠ [] := serves ⟨served, b⟩ List.mem_cons_self
          have under : served.isEmpty = false := by simpa using own
          rw [List.isEmpty_nil] at behind
          simp only [splitIdleBases, under, behind, Bool.false_eq_true, if_false]

/-- What ends a list without duplicates and begins like it is all of it. -/
theorem eq_of_suffix_of_nodup {front xs ys : List Nat} (begins : front ≠ [])
    (nodup : (front ++ ys).Nodup) (ends : front ++ xs <:+ front ++ ys) : xs = ys := by
  obtain ⟨first, rest, rfl⟩ := List.exists_cons_of_ne_nil begins
  rcases ends with ⟨lead, whole⟩
  cases lead with
  | nil => exact List.append_cancel_left whole
  | cons other lead =>
      rw [List.cons_append, List.cons_append, List.cons_append, List.cons.injEq] at whole
      have twice : first ∈ rest ++ ys := by
        rw [← whole.2]
        exact List.mem_append_right _ List.mem_cons_self
      exact absurd twice (List.nodup_cons.mp nodup).1

/-! ### The same once more -/

namespace BasePool

variable {pool : BasePool} {b location : Nat} {duration : Duration}

/-- A base that is put where it lies. -/
theorem placed_eq_self {lies : Base} (here : pool.base b = .ok (lies.place location duration)) :
    b < pool.size ∧ pool.placed b location duration = pool := by
  rcases pool with ⟨entries⟩
  rw [base, orOutOfTable_eq_ok, Option.map_eq_some_iff] at here
  rcases here with ⟨e, found, same⟩
  refine ⟨(List.getElem?_eq_some_iff.mp found).1, ?_⟩
  simp only [placed, modifyEntry, BasePool.mk.injEq]
  apply List.ext_getElem?
  intro i
  rw [List.getElem?_modify]
  by_cases own : b = i
  · subst own
    have unchanged : e.base.place location duration = e.base := by
      rw [same]
      rfl
    simp [show entries[b]? = some e from found, unchanged]
  · simp [own]

end BasePool

/-- What is added to the volumes is forgotten when they are cleared. -/
theorem Volumes.clear_add {vs next : Volumes α} {location : Nat} {load : Load α}
    (done : vs.add location load = .ok next) : next.clear = vs.clear := by
  simp only [Volumes.add, bind_eq_ok, Volumes.entry_eq_ok] at done
  rcases done with ⟨e, found, equal⟩
  cases equal
  have here : vs.entries[location - vs.first]? = some e := by
    rw [Volumes.tracked?] at found
    split at found
    · cases found
    · exact found
  simp only [Volumes.clear, List.map_set, Volumes.mk.injEq, true_and]
  apply List.ext_getElem?
  intro i
  by_cases own : location - vs.first = i
  · subst own
    rw [List.getElem?_set_self (by simpa using (List.getElem?_eq_some_iff.mp here).1),
      List.getElem?_map, here]
    rfl
  · rw [List.getElem?_set_ne own]

/-! ### What a visit passed stays -/

/-- A route keeps its vehicle and its departure, and some of its bases stay as they are. -/
structure Plan.KeepsFront (r : Nat) (front : List Stop) (plan next : Plan α) : Prop where
  home : ∀ route, plan.routes[r]? = some route → ∃ now, next.routes[r]? = some now ∧
    now.vehicle = route.vehicle ∧ now.fixedDeparture = route.fixedDeparture
  bases : ∀ b, .base b ∈ front → next.pool.base b = plan.pool.base b

section

variable {p : Problem α} {settings : Settings α} {r b location jobs bases : Nat}
  {front placed rest : List Stop} {trip : List Nat} {duration : Duration} {plan middle last : Plan α}
  {w next : Work α}

omit [Quantity α] in
theorem Plan.KeepsFront.refl (r : Nat) (front : List Stop) (plan : Plan α) :
    KeepsFront r front plan plan :=
  ⟨fun route found => ⟨route, found, rfl, rfl⟩, fun _ _ => rfl⟩

omit [Quantity α] in
theorem Plan.KeepsFront.trans (first : KeepsFront r front plan middle)
    (second : KeepsFront r front middle last) : KeepsFront r front plan last := by
  refine ⟨fun route found => ?_, fun b member =>
    (second.bases b member).trans (first.bases b member)⟩
  obtain ⟨now, foundNow, vehicle, departure⟩ := first.home route found
  obtain ⟨then_, foundThen, vehicleThen, departureThen⟩ := second.home now foundNow
  exact ⟨then_, foundThen, vehicleThen.trans vehicle, departureThen.trans departure⟩

omit [Quantity α] in
theorem Plan.SameRoute.keepsFront {stops : List Stop} (same : SameRoute r plan last)
    (visits : plan.Visits r stops) : KeepsFront r stops plan last :=
  ⟨fun route found => ⟨route, same.route_eq.trans found, rfl, rfl⟩,
    fun b member => same.bases stops b visits member⟩

theorem Places.keepsFront (conserved : Conserved jobs bases w.plan)
    (places : Places p settings r placed trip b rest location duration w next) :
    KeepsFront r placed w.plan next.plan := by
  refine ⟨fun route found => ?_, fun c member => places.base_of_ne ?_⟩
  · rcases places.plan_eq with ⟨plan, put, refreshed⟩
    have foundAgain : plan.routes[r]? = some route := by
      obtain ⟨_, rfl⟩ := placeBase_eq_ok.mp put
      exact found
    obtain ⟨fresh, current, vehicle, departure, _⟩ := current_refreshRoute foundAgain refreshed
    exact ⟨fresh, current.found, vehicle, departure⟩
  · rintro rfl
    have behind : Stop.base b ∈ placed ++ (trip.map .destination ++ .base b :: rest) := by simp
    have once := (conserved.once_of_visits places.visits behind).1
    have twice := List.count_pos_iff.mpr member
    simp only [List.count_append, List.count_cons_self] at once
    omega

theorem Drops.keepsFront (conserved : Conserved jobs bases w.plan)
    (drops : Drops p r placed trip b rest w next) : KeepsFront r placed w.plan next.plan := by
  refine ⟨fun route found => ?_, fun c member =>
    drops.base_eq conserved (List.mem_append_left _ member)⟩
  rcases drops.plan_eq with ⟨same, plan, foundAgain, _, handed, refreshed⟩
  rw [found] at foundAgain
  cases foundAgain
  have shorter : plan.routes[r]? = some { route with stops := placed ++ rest } := by
    rw [(handBackAll_keeps handed).1, routes_setRoute_self found]
  obtain ⟨fresh, current, vehicle, departure, _⟩ := current_refreshRoute shorter refreshed
  exact ⟨fresh, current.found, vehicle, departure⟩

end

/-! ### The same choice once more -/

namespace Work

section

variable {p : Problem α} {settings : Settings α} {plan other put : Plan α} {route now : Route}
  {r b job location : Nat} {s : PlacementState α} {before placed rest : List Stop} {trip : List Nat}
  {w : Work α}

/-- What is asked for a base between a job and what is no base follows from the stops alone. -/
theorem placementQuery_congr (found : plan.routes[r]? = some route)
    (foundNow : other.routes[r]? = some now) (vehicle : now.vehicle = route.vehicle)
    (stops : now.stops = route.stops)
    (split : route.stops = before ++ .destination job :: .base b :: rest)
    (position : s.tripStart + s.passed = before.length + 1)
    (unclosed : rest.head?.all (·.isDestination) = true) :
    placementQuery p other r s = placementQuery p plan r s := by
  have previous : route.stops[before.length]? = some (.destination job) := by simp [split]
  have next : route.stops[before.length + 1 + 1]? = rest.head? := by
    rw [split, List.getElem?_append_right (by omega), List.head?_eq_getElem?]
    have shift : before.length + 1 + 1 - before.length = 2 := by omega
    rw [shift]
    rfl
  simp only [placementQuery, Plan.route, found, foundNow, orOutOfTable_some, vehicle, stops,
    position, previous, next, bind, Except.bind, Problem.stopLocation]
  cases later : rest.head? with
  | none => rfl
  | some stop =>
      rw [later] at unclosed
      obtain ⟨job', rfl⟩ := Stop.isDestination_iff.mp unclosed
      rfl

/-- In a plan in which a base lies where it was put, everything before it being the same, the same
location is chosen, and the base stays. -/
theorem Chooses.again (chooses : Chooses p settings r s b location w put)
    (visiting : Visiting p w.plan r s placed trip (.base b :: rest)) (serves : trip ≠ [])
    (unclosed : rest.head?.all (·.isDestination) = true) (current : w.plan.Current p r route)
    (again : other.Current p r now) (stops : now.stops = route.stops)
    (keeps : KeepsFront r placed w.plan other) (lies : other.pool.base b = put.pool.base b) :
    Chooses p settings r s b location ⟨other, w.volumes⟩ other := by
  obtain ⟨query, asked, best, placedAt⟩ := chooses
  obtain ⟨jobs, job, rfl⟩ : ∃ jobs job, trip = jobs ++ [job] :=
    ⟨_, _, (List.dropLast_append_getLast serves).symm⟩
  obtain ⟨same, foundNow, vehicle, departure⟩ := keeps.home route current.found
  rw [again.found] at foundNow
  cases foundNow
  have whole : route.stops = placed ++ ((jobs ++ [job]).map .destination ++ .base b :: rest) := by
    rcases visiting.visits with ⟨home, visits⟩
    obtain ⟨same, found, _, whole⟩ := itineraries_eq_some.mp visits
    rw [current.found] at found
    cases found
    exact whole
  have split : route.stops =
      (placed ++ jobs.map .destination) ++ .destination job :: .base b :: rest := by simp [whole]
  have position : s.tripStart + s.passed = (placed ++ jobs.map Stop.destination).length + 1 := by
    simp [visiting.start_eq, visiting.passed_eq]
    omega
  refine ⟨query, ?_, best, ?_⟩
  · rw [← asked]
    exact placementQuery_congr current.found again.found vehicle stops split position unclosed
  · obtain ⟨_, visit, arrival, duration, found, there, arrives, takes, isPut⟩ :=
      placeAt_eq_ok.mp placedAt
    rw [current.found] at found
    cases found
    obtain ⟨inside, rfl⟩ := placeBase_eq_ok.mp isPut
    obtain ⟨base, here⟩ := BasePool.base_placed_self inside
    obtain ⟨known, unchanged⟩ := BasePool.placed_eq_self (lies.trans here)
    refine placeAt_eq_ok.mpr ⟨now, visit, arrival, duration, again.found, ?_, arrives, takes,
      placeBase_eq_ok.mpr ⟨known, by rw [unchanged]⟩⟩
    -- The vehicle comes from the trip under way, and no base before it has moved.
    have passed : route.stops =
        (placed ++ (jobs ++ [job]).map .destination) ++ .base b :: rest := by simp [whole]
    rw [← there]
    apply current.visit_eq again vehicle departure passed (stops.trans passed)
    · exact fun c member => keeps.bases c (by simpa using member)
    · simp [position]

/-! ### The visit of a route -/

/-- Jobs that were passed once are passed again. -/
theorem placeBases_trip {t : List Nat} (known : ∀ job ∈ t, ∃ d, p.destination job = .ok d)
    (passed : s.passed = t.length) (load : s.load = p.demandOf t) :
    placeBases p settings r s.atTrip (t.map .destination ++ rest) w =
      placeBases p settings r s rest w := by
  suffices along : ∀ done later, (∀ job ∈ later, ∃ d, p.destination job = .ok d) →
      placeBases p settings r { s with passed := done.length, load := p.demandOf done }
        (later.map .destination ++ rest) w =
      placeBases p settings r { s with
        passed := (done ++ later).length, load := p.demandOf (done ++ later) } rest w by
    have whole := along [] t known
    rw [List.nil_append, ← passed, ← load] at whole
    exact whole
  intro done later
  induction later generalizing done with
  | nil =>
      intro _
      rw [List.append_nil]
      rfl
  | cons job later inductionHypothesis =>
      intro known
      obtain ⟨d, served⟩ := known job List.mem_cons_self
      have behind := inductionHypothesis (done ++ [job]) fun other member =>
        known other (List.mem_cons_of_mem job member)
      rw [List.append_assoc, List.singleton_append, Problem.demandOf_append_singleton,
        List.length_append, List.length_singleton, Problem.demand_eq served] at behind
      rw [List.map_cons, List.cons_append, placeBases, ofResult_bind_of_ok served]
      exact behind

/-- A base that lies where it is put stays, and the visit goes on behind it. -/
theorem placeBases_stays {plan : Plan α} {volumes next : Volumes α}
    (chooses : Chooses p settings r s b location ⟨plan, volumes⟩ plan)
    (added : volumes.add location s.load = .ok next)
    (refreshed : plan.refreshRoute p r = .ok plan) :
    placeBases p settings r s (.base b :: rest) ⟨plan, volumes⟩ =
      placeBases p settings r (s.behind location) rest ⟨plan, next⟩ := by
  obtain ⟨query, asked, best, placedAt⟩ := chooses
  rw [placeBases, get_bind, ofResult_bind_of_ok asked, ofResult_bind_of_ok best]
  dsimp only
  rw [ofResult_bind_of_ok placedAt, set_bind, ofResult_bind_of_ok added,
    ofResult_bind_of_ok refreshed, set_bind]
  rfl

end

end Work

/-- The visit of a route that is up to date and in which every base closes a trip with jobs. -/
structure Midway (p : Problem α) (jobs bases r : Nat) (s : PlacementState α) (placed : List Stop)
    (trip : List Nat) (rest : List Stop) (w : Work α) : Prop
    extends Visiting p w.plan r s placed trip rest where
  conserved : Conserved jobs bases w.plan
  current : ∃ route, w.plan.Current p r route
  serves : ∀ t ∈ (tripsOf trip rest).1, t.jobs ≠ []
  known : ∀ job ∈ trip, ∃ d, p.destination job = .ok d
  begun : placed ≠ [] → jobsIn placed ≠ []

/-- What the visit of a route leaves of the stops from the beginning of a trip on.  As long as no
trip was removed behind one that was placed, a second visit leaves all as it is. -/
structure Leaves (p : Problem α) (settings : Settings α) (jobs bases r : Nat)
    (begins : PlacementState α) (placed stops : List Stop) (w last : Work α) (route : Route)
    (left : List Stop) : Prop where
  changes : ChangesAt r w.plan last.plan
  conserved : Conserved jobs bases last.plan
  cleared : last.volumes.clear = w.volumes.clear
  current : last.plan.Current p r route
  stops_eq : route.stops = placed ++ left
  serves : ∀ t ∈ closedTrips left, t.jobs ≠ []
  fewer : left = stops ∨ (jobsIn left).length < (jobsIn stops).length
  front : KeepsFront r placed w.plan last.plan
  again : jobsIn (placed ++ left) <:+ jobsIn (placed ++ stops) →
    ∀ other, SameRoute r last.plan other →
      Work.placeBases p settings r begins left ⟨other, w.volumes⟩ = .ok [] ⟨other, last.volumes⟩

section

variable {p : Problem α} {settings : Settings α} {jobs bases r b location : Nat}
  {s : PlacementState α} {placed rest left : List Stop} {trip : List Nat} {duration : Duration}
  {w next last : Work α} {put : Plan α} {route : Route}

theorem Midway.route_stops (midway : Midway p jobs bases r s placed trip rest w)
    (found : w.plan.routes[r]? = some route) :
    route.stops = placed ++ (trip.map .destination ++ rest) := by
  rcases midway.visits with ⟨vehicle, visits⟩
  obtain ⟨same, foundAgain, _, stops⟩ := itineraries_eq_some.mp visits
  rw [found] at foundAgain
  cases foundAgain
  exact stops

theorem Midway.passes {job : Nat} {passed : PlacementState α} {d : Destination α}
    (midway : Midway p jobs bases r s placed trip (.destination job :: rest) w)
    (served : p.destination job = .ok d)
    (later : Visiting p w.plan r passed placed (trip ++ [job]) rest) :
    Midway p jobs bases r passed placed (trip ++ [job]) rest w := by
  refine ⟨later, midway.conserved, midway.current, midway.serves, fun other member => ?_,
    midway.begun⟩
  rcases List.mem_append.mp member with before | own
  · exact midway.known other before
  · exact ⟨d, by rw [List.mem_singleton.mp own, served]⟩

theorem Midway.places (midway : Midway p jobs bases r s placed trip (.base b :: rest) w)
    (places : Places p settings r placed trip b rest location duration w next)
    (later : Visiting p next.plan r (s.behind location)
      (placed ++ (trip.map .destination ++ [.base b])) [] rest) :
    Midway p jobs bases r (s.behind location)
      (placed ++ (trip.map .destination ++ [.base b])) [] rest next := by
  refine ⟨later, places.conserves midway.conserved, ?_,
    fun t member => midway.serves t (List.mem_cons_of_mem _ member),
    fun _ member => absurd member List.not_mem_nil, fun _ => ?_⟩
  · obtain ⟨route, current⟩ := midway.current
    rcases places.plan_eq with ⟨plan, put, refreshed⟩
    have found : plan.routes[r]? = some route := by
      obtain ⟨_, rfl⟩ := placeBase_eq_ok.mp put
      exact current.found
    obtain ⟨fresh, currentNow, _⟩ := current_refreshRoute found refreshed
    exact ⟨fresh, currentNow⟩
  · have serves : trip ≠ [] := midway.serves ⟨trip, b⟩ List.mem_cons_self
    simp [serves]

theorem Midway.drops (midway : Midway p jobs bases r s placed trip (.base b :: rest) w)
    (drops : Drops p r placed trip b rest w next)
    (later : Visiting p next.plan r s.atTrip placed [] rest) :
    Midway p jobs bases r s.atTrip placed [] rest next := by
  refine ⟨later, drops.conserves midway.conserved, ?_,
    fun t member => midway.serves t (List.mem_cons_of_mem _ member),
    fun _ member => absurd member List.not_mem_nil, midway.begun⟩
  rcases drops.plan_eq with ⟨route, plan, found, _, handed, refreshed⟩
  have shorter : plan.routes[r]? = some { route with stops := placed ++ rest } := by
    rw [(handBackAll_keeps handed).1, routes_setRoute_self found]
  obtain ⟨fresh, current, _⟩ := current_refreshRoute shorter refreshed
  exact ⟨fresh, current⟩

/-- No base follows the base that closes a trip. -/
theorem Midway.unclosed (midway : Midway p jobs bases r s placed trip (.base b :: rest) w) :
    rest.head?.all (·.isDestination) = true := by
  cases rest with
  | nil => rfl
  | cons stop rest =>
      cases stop with
      | destination job => rfl
      | base c =>
          have idle := midway.serves ⟨[], c⟩ (List.mem_cons_of_mem _ List.mem_cons_self)
          exact absurd rfl idle

/-- Behind a trip that stays, all trips stay, if of the whole route only the first jobs were
removed. -/
theorem Midway.left_eq (midway : Midway p jobs bases r s placed trip (.base b :: rest) w)
    {left : List Stop} (fewer : left = rest ∨ (jobsIn left).length < (jobsIn rest).length)
    (ends : jobsIn (placed ++ (trip.map .destination ++ .base b :: left)) <:+
      jobsIn (placed ++ (trip.map .destination ++ .base b :: rest))) : left = rest := by
  rcases fewer with same | fewer
  · exact same
  · have serves : trip ≠ [] := midway.serves ⟨trip, b⟩ List.mem_cons_self
    have nodup := midway.conserved.nodup_jobsIn midway.visits
    have begins : jobsIn placed ++ trip ≠ [] := by simp [serves]
    have all : jobsIn left = jobsIn rest :=
      eq_of_suffix_of_nodup begins (by simpa using nodup) (by simpa using ends)
    rw [all] at fewer
    exact absurd fewer (Nat.lt_irrefl _)

/-- The end of a visit. -/
theorem Midway.leaves_nil (midway : Midway p jobs bases r s placed trip [] w) :
    ∃ route, Leaves p settings jobs bases r s.atTrip placed (trip.map .destination) w w route
      (trip.map .destination) := by
  obtain ⟨route, current⟩ := midway.current
  refine ⟨route, .refl r w.plan, midway.conserved, rfl, current, ?_, ?_, .inl rfl,
    .refl r placed w.plan, fun _ other _ => ?_⟩
  · simpa using midway.route_stops current.found
  · rw [closedTrips, tripsOf_destinations]
    simp
  · have passed : Work.placeBases p settings r s.atTrip (trip.map .destination ++ [])
        ⟨other, w.volumes⟩ = _ :=
      Work.placeBases_trip midway.known midway.passed_eq midway.load_eq
    rw [List.append_nil] at passed
    exact passed

/-- A trip was placed. -/
theorem Midway.leaves_places (midway : Midway p jobs bases r s placed trip (.base b :: rest) w)
    (chooses : Work.Chooses p settings r s b location w put)
    (refreshed : put.refreshRoute p r = .ok next.plan)
    (places : Places p settings r placed trip b rest location duration w next)
    (later : Leaves p settings jobs bases r (s.behind location)
      (placed ++ (trip.map .destination ++ [.base b])) rest next last route left) :
    Leaves p settings jobs bases r s.atTrip placed (trip.map .destination ++ .base b :: rest) w last route
      (trip.map .destination ++ .base b :: left) := by
  have serves : trip ≠ [] := midway.serves ⟨trip, b⟩ List.mem_cons_self
  obtain ⟨before, current⟩ := midway.current
  have front : KeepsFront r placed w.plan last.plan :=
    (places.keepsFront midway.conserved).trans
      ⟨later.front.home, fun c member => later.front.bases c (List.mem_append_left _ member)⟩
  refine ⟨(places.changesAt midway.conserved).trans later.changes, later.conserved,
    later.cleared.trans (Volumes.clear_add places.volumes_eq), later.current,
    by simp [later.stops_eq], ?_, ?_, front, fun ends other same => ?_⟩
  · rw [closedTrips, tripsOf_lead]
    intro t member
    rcases List.mem_cons.mp member with rfl | behind
    · exact serves
    · exact later.serves t behind
  · rcases later.fewer with rfl | fewer
    · exact .inl rfl
    · exact .inr (by simpa using fewer)
  · have endsLater : jobsIn (placed ++ (trip.map .destination ++ [.base b]) ++ left) <:+
        jobsIn (placed ++ (trip.map .destination ++ [.base b]) ++ rest) := by simpa using ends
    have whole : left = rest := midway.left_eq later.fewer ends
    subst whole
    have again := later.current.congr same
    have stops : route.stops = before.stops := by
      rw [midway.route_stops current.found, later.stops_eq]
      simp
    have visits : last.plan.Visits r route.stops :=
      visits_of_route later.current.found
    have keeps := same.keepsFront visits
    have lies : other.pool.base b = put.pool.base b := by
      rw [keeps.bases b (by simp [later.stops_eq]), later.front.bases b (by simp),
        (refreshRoute_keeps refreshed).2.1]
    have chooses := chooses.again midway.toVisiting serves midway.unclosed current again stops
      (front.trans ⟨keeps.home, fun c member => keeps.bases c (by simp [later.stops_eq, member])⟩)
      lies
    rw [Work.placeBases_trip midway.known midway.passed_eq midway.load_eq,
      Work.placeBases_stays chooses (midway.load_eq ▸ places.volumes_eq) again.refreshRoute]
    exact later.again endsLater other same

/-- A trip was removed. -/
theorem Midway.leaves_drops (midway : Midway p jobs bases r s placed trip (.base b :: rest) w)
    (drops : Drops p r placed trip b rest w next)
    (later : Leaves p settings jobs bases r s.atTrip placed rest next last route left) :
    Leaves p settings jobs bases r s.atTrip placed (trip.map .destination ++ .base b :: rest) w last route
      left := by
  have serves : trip ≠ [] := midway.serves ⟨trip, b⟩ List.mem_cons_self
  have shorter : (jobsIn left).length ≤ (jobsIn rest).length := by
    rcases later.fewer with rfl | fewer
    · exact Nat.le_refl _
    · exact fewer.le
  have positive := List.length_pos_of_ne_nil serves
  refine ⟨(drops.changesAt midway.conserved).trans later.changes, later.conserved,
    later.cleared.trans (by rw [drops.volumes_eq]), later.current, later.stops_eq, later.serves,
    .inr ?_, (drops.keepsFront midway.conserved).trans later.front, fun ends other same => ?_⟩
  · simp only [jobsIn_append, jobsIn_destinations, jobsIn_base, List.length_append]
    omega
  · rw [← drops.volumes_eq]
    refine later.again ?_ other same
    by_cases first : placed = []
    · subst first
      have behind : jobsIn rest <:+ jobsIn (trip.map .destination ++ .base b :: rest) :=
        ⟨trip, by simp⟩
      exact List.suffix_of_suffix_length_le ends behind shorter
    · -- A trip that was placed stays in front, so no job behind it is missing.
      have nodup := midway.conserved.nodup_jobsIn midway.visits
      rw [jobsIn_append, jobsIn_append] at ends
      have all := eq_of_suffix_of_nodup (midway.begun first) (by simpa using nodup) ends
      have many := congrArg List.length all
      simp only [jobsIn_append, jobsIn_destinations, jobsIn_base, List.length_append] at many
      omega

/-- What the visit of a route leaves. -/
theorem placeBases_leaves (midway : Midway p jobs bases r s placed trip rest w) :
    Ends (Work.placeBases p settings r s rest) (fun _ last => ∃ route left,
      Leaves p settings jobs bases r s.atTrip placed (trip.map .destination ++ rest) w last route left)
      (fun _ _ => True) w := by
  induction rest generalizing s placed trip w with
  | nil =>
      rw [List.append_nil]
      obtain ⟨route, leaves⟩ := midway.leaves_nil
      exact ⟨route, _, leaves⟩
  | cons stop rest inductionHypothesis =>
      cases stop with
      | destination job =>
          apply Work.placeBases_destination_ends midway.toVisiting fun _ _ => trivial
          intro d served passed later
          have same : trip.map Stop.destination ++ .destination job :: rest =
            (trip ++ [job]).map .destination ++ rest := by simp
          rw [same]
          exact inductionHypothesis (midway.passes served later)
      | base b =>
          apply Work.placeBases_base_ends midway.toVisiting (fun _ _ => trivial)
            (fun _ _ _ _ _ _ _ => trivial)
          · intro put next location duration chooses refreshed places later
            refine (inductionHypothesis (midway.places places later)).mono
              (fun _ last ⟨route, left, leaves⟩ => ?_) fun _ _ _ => trivial
            exact ⟨route, _, midway.leaves_places chooses refreshed places leaves⟩
          · intro next drops later
            refine (inductionHypothesis (midway.drops drops later)).mono
              (fun _ last ⟨route, left, leaves⟩ => ?_) fun _ _ _ => trivial
            exact ⟨route, left, midway.leaves_drops drops leaves⟩

/-- Of the jobs that it serves a route keeps the last ones. -/
def Plan.KeepsLast (r : Nat) (plan next : Plan α) : Prop :=
  ∀ stops now, plan.Visits r stops → next.Visits r now → jobsIn now <:+ jobsIn stops

/-- What the visit of a route leaves of plan and volumes. -/
structure Revisits (p : Problem α) (settings : Settings α) (jobs bases r : Nat) (w last : Work α) :
    Prop where
  changes : ChangesAt r w.plan last.plan
  conserved : Conserved jobs bases last.plan
  cleared : last.volumes.clear = w.volumes.clear
  again : w.plan.KeepsLast r last.plan → ∀ other, SameRoute r last.plan other →
    Work.placeRoute p settings r ⟨other, w.volumes⟩ = .ok [] ⟨other, last.volumes⟩

/-- The visit of a route that is up to date, and in which no base is idle, begins at once. -/
theorem placeRoute_of_current {plan : Plan α} {volumes : Volumes α}
    (current : plan.Current p r route) (serves : ∀ t ∈ closedTrips route.stops, t.jobs ≠ []) :
    Work.placeRoute p settings r ⟨plan, volumes⟩ =
      Work.placeBases p settings r ⟨0, 0, .empty, 0, []⟩ route.stops ⟨plan, volumes⟩ := by
  have whole : splitIdleBases true route.stops = (route.stops, []) :=
    splitIdleBases_of_serves serves
  have cleared : plan.clearIdleBases r = .ok (0, plan) := by
    refine clearIdleBases_eq_ok.mpr ⟨route, current.found, by rw [whole]; rfl, ?_⟩
    rw [whole]
    exact congrArg Except.ok (setRoute_self current.found)
  rw [Work.placeRoute, get_bind, ofResult_bind_of_ok cleared]
  dsimp only
  rw [ofResult_bind_of_ok current.refreshRoute, set_bind,
    ofResult_bind_of_ok (route_eq_ok.mpr current.found)]

/-- If of the jobs of a route only the first ones were removed, a second visit leaves all as it
is. -/
theorem placeRoute_revisits (conserved : Conserved jobs bases w.plan) :
    Ends (Work.placeRoute p settings r) (fun _ last => Revisits p settings jobs bases r w last)
      (fun _ _ => True) w := by
  refine Work.placeRoute_ends (fun _ _ => trivial) fun plan stops repaired visits => ?_
  obtain ⟨vehicle, old, before, changed, changes, _, _⟩ := repairRoute_changes conserved repaired
  have kept : stops = (splitIdleBases true old).1 := by
    rcases visits with ⟨home, found⟩
    rw [changed, List.getElem?_set_self (List.getElem?_eq_some_iff.mp before).1] at found
    cases found
    rfl
  have midway : Midway p jobs bases r ⟨0, 0, .empty, 0, []⟩ [] [] stops
      { w with plan := plan } := by
    refine ⟨Work.visiting_start visits, repairRoute_conserves conserved repaired, ?_, ?_,
      fun _ member => absurd member List.not_mem_nil, fun begun => absurd rfl begun⟩
    · simp only [repairRoute, bind_eq_ok] at repaired
      rcases repaired with ⟨_, _, refreshed⟩
      obtain ⟨route, _, _, found, _⟩ := refreshRoute_eq_ok refreshed
      obtain ⟨fresh, current, _⟩ := current_refreshRoute found refreshed
      exact ⟨fresh, current⟩
    · rw [kept, ← closedTrips, closedTrips_splitIdleBases]
      intro t member
      simpa using (List.mem_filter.mp member).2
  refine (placeBases_leaves midway).mono ?_ fun _ _ _ => trivial
  rintro _ last ⟨route, left, leaves⟩
  refine ⟨changes.trans leaves.changes, leaves.conserved, leaves.cleared,
    fun keeps other same => ?_⟩
  have visitsNow : last.plan.Visits r route.stops :=
    visits_of_route leaves.current.found
  have ends := keeps old route.stops ⟨vehicle, before⟩ visitsNow
  have all : route.stops = left := leaves.stops_eq
  rw [placeRoute_of_current (leaves.current.congr same) (all ▸ leaves.serves), all]
  refine leaves.again ?_ other same
  rw [all, ← jobsIn_splitIdleBases true old, ← kept] at ends
  exact ends

end

end Haulage

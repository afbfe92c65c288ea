/-
Module: Haulage.Proofs.Renumbering
Purpose: When trips that lose jobs or disappear leave the others under lower numbers, a trip may
  become the first one, which another capacity limits.  Nothing checks that; when it does no harm is
  told here exactly.
Main exports: thinned, FirstFits, tripsFit_iff_firstFits, Remains, reach_withinCapacity_iff
-/
import Haulage.Proofs.Capacity
import Haulage.Proofs.Leftover
import Haulage.Proofs.Unloading
import Mathlib.Data.List.NodupEquivFin
import Mathlib.Order.WellFounded

namespace Haulage

open Attempt Plan

/-! ### Trips that lose jobs -/

/-- Some trips without some jobs, of which those that keep a job are left. -/
def thinned (removed : List Nat) (trips : List Trip) : List Trip :=
  (trips.map (Trip.without removed)).filter fun t => !t.jobs.isEmpty

/-- The first of the trips of a route that keeps a job fits, with what it keeps, where it becomes
the first trip of all. -/
def FirstFits {α : Type} [Quantity α] (p : Problem α) (v : Vehicle α) (removed : List Nat)
    (stops : List Stop) : Prop :=
  ∀ t ∈ (thinned removed (closedTrips stops)).head?,
    (p.demandOf t.jobs).fits (v.tripCapacity 0) = true

/-- A trip that is left stood no earlier before, and has lost the jobs that were removed. -/
theorem getElem?_thinned {removed : List Nat} {trips : List Trip} {k : Nat} {t : Trip}
    (found : (thinned removed trips)[k]? = some t) :
    ∃ i old, k ≤ i ∧ trips[i]? = some old ∧ t = old.without removed := by
  obtain ⟨place, same⟩ :=
    List.sublist_iff_exists_orderEmbedding_getElem?_eq.mp (List.filter_sublist (l := trips.map _))
  rw [thinned, same, List.getElem?_map, Option.map_eq_some_iff] at found
  rcases found with ⟨old, here, rfl⟩
  exact ⟨place k, old, place.strictMono.le_apply, here, rfl⟩

section

variable {p : Problem Rat} {v : Vehicle Rat}

/-- Of the trips that are left only the first can be too large for its new number. -/
theorem tripsFit_iff_firstFits (adds : p.DemandsAdd) {removed : List Nat} {stops now : List Stop}
    (fits : TripsFit p v stops) (thin : closedTrips now = thinned removed (closedTrips stops)) :
    TripsFit p v now ↔ FirstFits p v removed stops := by
  rw [FirstFits, ← thin]
  constructor
  · intro all t first
    apply all 0 t
    rwa [← List.head?_eq_getElem?]
  · intro first k t found
    cases k with
    | zero =>
        rw [← List.head?_eq_getElem?] at found
        exact first t found
    | succ k =>
        rw [thin] at found
        obtain ⟨i, old, later, here, rfl⟩ := getElem?_thinned found
        obtain ⟨j, rfl⟩ : ∃ j, i = j + 1 := ⟨i - 1, by omega⟩
        have before := fits (j + 1) old here
        rw [Vehicle.tripCapacity_succ] at before ⊢
        exact Problem.fits_sublist adds List.filter_sublist before

end

/-! ### Plans with renumbered trips -/

/-- Every closed trip of every route is within the capacity for its number. -/
def Plan.WithinCapacity {α : Type} [Quantity α] (p : Problem α) (plan : Plan α) : Prop :=
  ∀ (r vehicle : Nat) (stops : List Stop) (v : Vehicle α),
    plan.itineraries[r]? = some (vehicle, stops) → p.vehicle vehicle = .ok v → TripsFit p v stops

/-- Of the routes of a plan, those that are touched keep what is left of their trips, and the others
all of them. -/
def Plan.Renumbers {α : Type} (removed : List Nat) (touched : List Stop → Prop)
    (plan next : Plan α) : Prop :=
  next.itineraries.length = plan.itineraries.length ∧
    ∀ (r vehicle : Nat) (stops : List Stop), plan.itineraries[r]? = some (vehicle, stops) →
      ∃ now, next.itineraries[r]? = some (vehicle, now) ∧
        (touched stops → closedTrips now = thinned removed (closedTrips stops)) ∧
        (¬ touched stops → closedTrips now = closedTrips stops)

theorem Plan.Renumbers.withinCapacity_iff {p : Problem Rat} (adds : p.DemandsAdd)
    {plan next : Plan Rat} {removed : List Nat} {touched : List Stop → Prop}
    (fits : plan.WithinCapacity p) (renumbers : plan.Renumbers removed touched next) :
    next.WithinCapacity p ↔ ∀ (r vehicle : Nat) (stops : List Stop) (v : Vehicle Rat),
      plan.itineraries[r]? = some (vehicle, stops) → p.vehicle vehicle = .ok v → touched stops →
      FirstFits p v removed stops := by
  rcases renumbers with ⟨length, each⟩
  constructor
  · intro all r vehicle stops v found known loses
    obtain ⟨now, there, thin, _⟩ := each r vehicle stops found
    exact (tripsFit_iff_firstFits adds (fits r vehicle stops v found known) (thin loses)).mp
      (all r vehicle now v there known)
  · intro first r vehicle now v there known
    have inside := (List.getElem?_eq_some_iff.mp there).1
    rw [length] at inside
    obtain ⟨other, again, thin, same⟩ := each r _ _ (List.getElem?_eq_getElem inside)
    rw [there] at again
    cases again
    have found := List.getElem?_eq_getElem inside
    have before := fits r _ _ v found known
    by_cases loses : touched plan.itineraries[r].2
    · exact (tripsFit_iff_firstFits adds before (thin loses)).mpr
        (first r _ _ v found known loses)
    · intro k t closed
      rw [same loses] at closed
      exact before k t closed

/-! ### Removal -/

/-- The trips of a route from which jobs were taken and which was repaired. -/
theorem closedTrips_repaired (removed : List Nat) (stops : List Stop) :
    closedTrips (splitIdleBases true (stops.filter (Stop.isOutside removed))).1 =
      thinned removed (closedTrips stops) := by
  have taken := congrArg Prod.fst (tripsOf_filter removed [] stops)
  rw [List.filter_nil] at taken
  rw [closedTrips_splitIdleBases, closedTrips, taken]
  rfl

namespace Plan

variable {α : Type} {plan next : Plan α} {jobs bases : Nat}

/-- A removal keeps of each route that loses a job what is left of its trips. -/
theorem ruin_renumbers [Quantity α] {p : Problem α} {given removed : List Nat}
    (conserved : Conserved jobs bases plan) (done : plan.ruin p given = .ok (removed, next)) :
    plan.Renumbers given (fun stops => ∃ job ∈ given, .destination job ∈ stops) next := by
  have itineraries := ruin_itineraries conserved done
  constructor
  · rw [itineraries, itinerariesLeft, List.length_map]
  intro r vehicle stops found
  refine ⟨leftOf given stops, ?_, ?_, fun whole => ?_⟩
  · rw [itineraries, getElem?_itinerariesLeft given found]
  · rintro ⟨job, named, member⟩
    rw [leftOf_of_present named member]
    exact closedTrips_repaired given stops
  · rw [leftOf_of_absent fun job named member => whole ⟨job, named, member⟩]

end Plan

/-! ### Placement -/

/-- Trips of which some were dropped, and their jobs handed back.  Those that are left have jobs. -/
inductive Remains (handed : List Nat) : List Trip → List Trip → Prop where
  | nil : Remains handed [] []
  | drop {t : Trip} {now before : List Trip} (gone : ∀ job ∈ t.jobs, job ∈ handed)
      (rest : Remains handed now before) : Remains handed now (t :: before)
  | keep {t : Trip} {now before : List Trip} (serves : t.jobs ≠ [])
      (rest : Remains handed now before) : Remains handed (t :: now) (t :: before)

namespace Remains

variable {handed more : List Nat} {now before first last : List Trip} {t : Trip}

theorem mono (remains : Remains handed now before) (grows : ∀ job ∈ handed, job ∈ more) :
    Remains more now before := by
  induction remains with
  | nil => exact .nil
  | drop gone _ inductionHypothesis =>
      exact .drop (fun job member => grows job (gone job member)) inductionHypothesis
  | keep serves _ inductionHypothesis => exact .keep serves inductionHypothesis

theorem of_filter (handed : List Nat) (trips : List Trip) :
    Remains handed (trips.filter fun t => !t.jobs.isEmpty) trips := by
  induction trips with
  | nil => exact .nil
  | cons t trips inductionHypothesis =>
      by_cases idle : t.jobs = []
      · rw [List.filter_cons_of_neg (by simp [idle])]
        exact .drop (by simp [idle]) inductionHypothesis
      · rw [List.filter_cons_of_pos (by simpa using idle)]
        exact .keep idle inductionHypothesis

/-- One more trip is dropped from the middle. -/
theorem dropMiddle (remains : Remains handed (first ++ t :: last) before)
    (gone : ∀ job ∈ t.jobs, job ∈ handed) : Remains handed (first ++ last) before := by
  generalize split : first ++ t :: last = whole at remains
  induction remains generalizing first with
  | nil => simp at split
  | drop lost _ inductionHypothesis => exact .drop lost (inductionHypothesis split)
  | keep serves rest inductionHypothesis =>
      cases first with
      | nil =>
          cases split
          exact .drop gone rest
      | cons other first =>
          cases split
          exact .keep serves (inductionHypothesis rfl)

/-- If the trips that are left have no job that was handed back, they are what the jobs handed back
leave of the trips before. -/
theorem eq_thinned (remains : Remains handed now before)
    (kept : ∀ t ∈ now, ∀ job ∈ t.jobs, job ∉ handed) : now = thinned handed before := by
  induction remains with
  | nil => rfl
  | drop gone _ inductionHypothesis =>
      have lost : (Trip.without handed _).jobs = [] :=
        List.filter_eq_nil_iff.mpr fun job member => by simpa using gone job member
      rw [inductionHypothesis kept, thinned, thinned, List.map_cons,
        List.filter_cons_of_neg (by simp [lost])]
  | @keep t _ _ serves _ inductionHypothesis =>
      have whole : t.without handed = t := by
        rw [Trip.without, List.filter_eq_self.mpr]
        intro job member
        exact by simpa using kept t List.mem_cons_self job member
      rw [inductionHypothesis fun other member => kept other (List.mem_cons_of_mem t member),
        thinned, thinned, List.map_cons, whole, List.filter_cons_of_pos (by simpa using serves)]

end Remains

section

variable {α : Type} [Quantity α] {p : Problem α} {jobs bases : Nat}

/-- A placement under way.  On the routes visited so far trips were dropped and no other change was
made. -/
structure Work.Dropping (plan : Plan α) (jobs bases : Nat) (visited : List Nat) (w : Work α) :
    Prop where
  conserved : Conserved jobs bases w.plan
  length_eq : w.plan.itineraries.length = plan.itineraries.length
  each : ∀ (r vehicle : Nat) (stops : List Stop), plan.itineraries[r]? = some (vehicle, stops) →
    ∃ now, w.plan.itineraries[r]? = some (vehicle, now) ∧ (r ∉ visited → now = stops) ∧
      (r ∈ visited → Remains w.plan.unassigned (closedTrips now) (closedTrips stops))

namespace Work.Dropping

variable {plan : Plan α} {settings : Settings α} {visited : List Nat} {r b : Nat}
  {placed rest : List Stop} {trip : List Nat} {w next : Work α}

/-- The repair of a route drops its idle trips. -/
theorem repair {repaired : Plan α} (dropping : w.Dropping plan jobs bases visited)
    (fresh : r ∉ visited) (done : w.plan.repairRoute p r = .ok repaired) :
    Work.Dropping plan jobs bases (visited ++ [r]) { w with plan := repaired } := by
  obtain ⟨home, old, here, changed, changes, _⟩ := repairRoute_changes dropping.conserved done
  refine ⟨repairRoute_conserves dropping.conserved done,
    changes.length_eq.trans dropping.length_eq, fun i vehicle stops found => ?_⟩
  obtain ⟨now, there, untouched, remains⟩ := dropping.each i vehicle stops found
  by_cases same : r = i
  · subst same
    rw [here] at there
    cases there
    refine ⟨(splitIdleBases true old).1, ?_,
      fun apart => absurd (List.mem_append_right _ List.mem_cons_self) apart, fun _ => ?_⟩
    · rw [changed, List.getElem?_set_self (List.getElem?_eq_some_iff.mp here).1]
    · rw [closedTrips_splitIdleBases, untouched fresh]
      exact Remains.of_filter _ _
  · refine ⟨now, (changes.others same).trans there, fun apart => ?_, fun member => ?_⟩
    · exact untouched fun among => apart (List.mem_append_left _ among)
    · have among : i ∈ visited := by simpa [Ne.symm same] using member
      exact (remains among).mono fun job => (mem_unassigned_repairRoute done).mpr

theorem places {location : Nat} {duration : Duration}
    (dropping : w.Dropping plan jobs bases visited)
    (places : Places p settings r placed trip b rest location duration w next) :
    next.Dropping plan jobs bases visited := by
  have unassigned : next.plan.unassigned = w.plan.unassigned := by
    rcases places.plan_eq with ⟨_, put, refreshed⟩
    obtain ⟨_, rfl⟩ := placeBase_eq_ok.mp put
    exact (refreshRoute_keeps refreshed).2.2
  refine ⟨places.conserves dropping.conserved, ?_, ?_⟩
  · rw [places.itineraries_eq, dropping.length_eq]
  · rw [places.itineraries_eq, unassigned]
    exact dropping.each

theorem drops (dropping : w.Dropping plan jobs bases visited) (member : r ∈ visited)
    (tail : openJobs placed = []) (drops : Drops p r placed trip b rest w next) :
    next.Dropping plan jobs bases visited := by
  have conserved := drops.conserves dropping.conserved
  rcases drops.plan_eq with ⟨route, handedBack, here, whole, handed, refreshed⟩
  have found : w.plan.itineraries[r]? = some (route.vehicle, route.stops) :=
    itineraries_of_route here
  have changed := drops.itineraries_eq found
  have unassigned (job : Nat) :
      job ∈ next.plan.unassigned ↔ job ∈ w.plan.unassigned ∨ job ∈ trip := by
    rw [(refreshRoute_keeps refreshed).2.2, mem_handBackAll handed]
    simp
  refine ⟨conserved, by rw [changed, List.length_set, dropping.length_eq],
    fun i vehicle stops before => ?_⟩
  obtain ⟨now, there, untouched, remains⟩ := dropping.each i vehicle stops before
  have grows : ∀ job ∈ w.plan.unassigned, job ∈ next.plan.unassigned := fun job among =>
    (unassigned job).mpr (.inl among)
  by_cases same : r = i
  · subst same
    rw [found] at there
    cases there
    refine ⟨placed ++ rest, ?_, fun apart => absurd member apart, fun _ => ?_⟩
    · rw [changed, List.getElem?_set_self (List.getElem?_eq_some_iff.mp found).1]
    · have left := (remains member).mono grows
      rw [whole, closedTrips_append, tail, tripsOf_lead] at left
      rw [closedTrips_append, tail]
      exact left.dropMiddle fun job among => (unassigned job).mpr (.inr (by simpa using among))
  · refine ⟨now, ?_, untouched, fun among => (remains among).mono grows⟩
    rw [changed, List.getElem?_set_ne same, there]

end Work.Dropping

theorem placeRoute_dropping {plan : Plan α} {settings : Settings α} {visited later : List Nat}
    {r : Nat} {w : Work α} (split : plan.routeIds = visited ++ r :: later)
    (dropping : w.Dropping plan jobs bases visited) :
    Ends (Work.placeRoute p settings r)
      (fun _ next => next.Dropping plan jobs bases (visited ++ [r])) (fun _ _ => True) w := by
  have fresh : r ∉ visited := notMem_of_routeIds_eq split
  apply Work.placeRoute_ends (fun _ _ => trivial)
  intro repaired stops done visits
  refine (Work.placeBases_ends
    (fun placed _ _ w => openJobs placed = [] ∧ w.Dropping plan jobs bases (visited ++ [r]))
    (E := fun _ _ => True) (fun _ _ _ _ _ kept => kept)
    (fun placed trip b rest w next _ _ kept places => ⟨?_, kept.2.places places⟩)
    (fun placed trip b rest w next kept drops =>
      ⟨kept.1, kept.2.drops (List.mem_append_right _ List.mem_cons_self) kept.1 drops⟩)
    (fun _ _ _ _ _ _ _ _ _ => trivial) (fun _ _ _ _ _ _ _ _ _ _ _ _ _ _ => trivial)
    ⟨rfl, dropping.repair fresh done⟩ (Work.visiting_start visits)).mono
    (fun _ next kept => ?_) fun _ _ _ => trivial
  · rw [openJobs_append, tripsOf_lead]
    rfl
  · rcases kept with ⟨placed, trip, ⟨_, kept⟩, _⟩
    exact kept

/-- The placement of all bases keeps of each route what is left of its trips. -/
theorem placeAll_renumbers {settings : Settings α} {w next : Work α} {removed : List Nat}
    (conserved : Conserved jobs bases w.plan)
    (done : Work.placeAll p settings w = .ok removed next) :
    w.plan.Renumbers next.plan.unassigned (fun _ => True) next.plan := by
  have ends : Ends (Work.placeAll p settings)
      (fun _ next => next.Dropping w.plan jobs bases w.plan.routeIds) (fun _ _ => True) w := by
    simp only [Work.placeAll, ends_bind, ends_modify, ends_get]
    refine Work.placeRoutes_ends (fun visited w' => w'.Dropping w.plan jobs bases visited)
      (fun visited r later _ split dropping => placeRoute_dropping split dropping) ?_
    refine ⟨conserved, rfl, fun r vehicle stops found => ⟨stops, found, fun _ => rfl, ?_⟩⟩
    intro member
    exact absurd member List.not_mem_nil
  rw [Ends, done] at ends
  have dropping : next.Dropping w.plan jobs bases w.plan.routeIds := ends
  refine ⟨dropping.length_eq, fun r vehicle stops found => ?_⟩
  obtain ⟨now, there, _, remains⟩ := dropping.each r vehicle stops found
  refine ⟨now, there, fun _ => ?_, fun untouched => absurd trivial untouched⟩
  apply (remains (Visits.mem_routeIds ⟨vehicle, found⟩)).eq_thinned
  intro t member job among
  -- What a route serves is not unassigned.
  have served := (stops_of_mem_closedTrips member).2 job among
  have waiting := dropping.conserved.waiting_of_visits ⟨vehicle, there⟩ served
  exact List.count_eq_zero.mp waiting

end

/-! ### The condition -/

/-- Whatever happened to a plan before, when all its trips are within the capacity for their
numbers: after a removal they are so if and only if on every route that loses a job the first trip
that keeps one fits where the first trip belongs, and after a placement if and only if on every
route the first trip that is left does. -/
theorem reach_withinCapacity_iff (p : Problem Rat) (adds : p.DemandsAdd)
    {operations : List (Operation Rat)} {plan : Plan Rat}
    (reached : Plan.reach p operations = .ok plan) (fits : plan.WithinCapacity p) :
    (∀ given removed next, plan.ruin p given = .ok (removed, next) →
      (next.WithinCapacity p ↔ ∀ (r vehicle : Nat) (stops : List Stop) (v : Vehicle Rat),
        plan.itineraries[r]? = some (vehicle, stops) → p.vehicle vehicle = .ok v →
        (∃ job ∈ given, .destination job ∈ stops) → FirstFits p v given stops)) ∧
    ∀ settings volumes removed next,
      Work.placeAll p settings ⟨plan, volumes⟩ = .ok removed next →
      (next.plan.WithinCapacity p ↔ ∀ (r vehicle : Nat) (stops : List Stop) (v : Vehicle Rat),
        plan.itineraries[r]? = some (vehicle, stops) → p.vehicle vehicle = .ok v →
        FirstFits p v next.plan.unassigned stops) := by
  have conserved := reach_conserves reached
  constructor
  · intro given removed next done
    exact (ruin_renumbers conserved done).withinCapacity_iff adds fits
  · intro settings volumes removed next done
    have renumbers := placeAll_renumbers (w := ⟨plan, volumes⟩) conserved done
    simpa using renumbers.withinCapacity_iff adds fits

/-- Planned from the beginning, each of the two jobs gets a trip of its own, and both trips fit. -/
theorem ruin_twoJobs (given : List Nat) (left : List Stop)
    (run : (Plan.reach twoJobs [.recreate (.forProblem twoJobs .standard)] >>= fun plan =>
      (plan.ruin twoJobs given).map fun done => (plan.itineraries, done.1, done.2.itineraries)) =
        .ok ([(0, [.destination 0, .base 0, .destination 1, .base 1])], given, [(0, left)])) :
    ∃ plan next, Plan.reach twoJobs [.recreate (.forProblem twoJobs .standard)] = .ok plan ∧
      plan.itineraries = [(0, [.destination 0, .base 0, .destination 1, .base 1])] ∧
      plan.WithinCapacity twoJobs ∧ plan.ruin twoJobs given = .ok (given, next) ∧
      next.itineraries = [(0, left)] := by
  simp only [bind_eq_ok] at run
  rcases run with ⟨plan, reached, answer⟩
  cases done : plan.ruin twoJobs given with
  | error e =>
      rw [done] at answer
      cases answer
  | ok pair =>
      rw [done] at answer
      rcases pair with ⟨removed, next⟩
      obtain ⟨itineraries, rfl, now⟩ : plan.itineraries = _ ∧ removed = _ ∧ next.itineraries = _ :=
        by simpa [Except.map] using answer
      refine ⟨plan, next, reached, itineraries, ?_, done, now⟩
      intro r vehicle stops v found known k t closed
      rw [itineraries] at found
      obtain ⟨rfl, rfl, rfl⟩ : r = 0 ∧ vehicle = 0 ∧ stops = _ := by
        cases r with
        | zero =>
            cases found
            exact ⟨rfl, rfl, rfl⟩
        | succ r => cases found
      cases known
      match k with
      | 0 =>
          cases closed
          decide +kernel
      | 1 =>
          cases closed
          decide +kernel
      | k + 2 => cases closed

/-- Without the second job the first keeps the trip where it fits. -/
theorem reach_withinCapacity_iff_twoJobs :
    twoJobs.DemandsAdd ∧ ∃ plan next,
      Plan.reach twoJobs [.recreate (.forProblem twoJobs .standard)] = .ok plan ∧
      plan.WithinCapacity twoJobs ∧ plan.ruin twoJobs [1] = .ok ([1], next) ∧
      next.itineraries = [(0, [.destination 0, .base 0])] ∧ next.WithinCapacity twoJobs := by
  have adds := demandsAdd_twoJobs
  obtain ⟨plan, next, reached, itineraries, fits, done, now⟩ :=
    ruin_twoJobs [1] [.destination 0, .base 0] (by decide +kernel)
  refine ⟨adds, plan, next, reached, fits, done, now, ?_⟩
  apply ((reach_withinCapacity_iff twoJobs adds reached fits).1 _ _ _ done).mpr
  intro r vehicle stops v found known _ t first
  rw [itineraries] at found
  cases r with
  | zero =>
      cases found
      cases known
      cases first
      decide +kernel
  | succ r => cases found

/-- A removal can leave a trip too large for its new number: a vehicle that carries five on its
first trip and ten on each later one serves both jobs, and once the first is taken out, the second
makes up its first trip. -/
theorem ruin_exceeds_firstTripCapacity :
    ∃ plan next, Plan.reach twoJobs [.recreate (.forProblem twoJobs .standard)] = .ok plan ∧
      plan.WithinCapacity twoJobs ∧ plan.ruin twoJobs [0] = .ok ([0], next) ∧
      next.itineraries = [(0, [.destination 1, .base 1])] ∧ ¬ next.WithinCapacity twoJobs := by
  obtain ⟨plan, next, reached, _, fits, done, now⟩ :=
    ruin_twoJobs [0] [.destination 1, .base 1] (by decide +kernel)
  refine ⟨plan, next, reached, fits, done, now, fun all => ?_⟩
  have found : next.itineraries[0]? = some (0, [.destination 1, .base 1]) := by rw [now]; rfl
  have fitsFirst := all 0 0 _ _ found rfl 0 ⟨[1], 1⟩ rfl
  revert fitsFirst
  decide +kernel

end Haulage

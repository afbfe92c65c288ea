/-
Module: Haulage.Proofs.Admission
Purpose: Which gaps the rules admit a job to.  The rules read the ledger and the volumes.  Where both
  tell the truth, a job is admitted to every gap of a trip that has room, and whose site has room, but
  for the gap in front of the base of a trip that carries nothing.
Main exports: Trial.Allows, Trial.verdict_job, Plan.Admits, Gap.ClosesUnladen, Plan.Legible,
  legible_of_reach, reach_verdict_iff
-/
import Haulage.Proofs.Exhaustive
import Haulage.Proofs.Prospects
import Haulage.Proofs.Undone

namespace Haulage

open Attempt Plan

/-! ### What the rules ask -/

namespace Trial

section

variable {α : Type} [Quantity α] {p : Problem α} {plan : Plan α} {volumes : Volumes α}
  {t : Trial α} {route : Route} {job : Nat} {d : Destination α}

/-- What the rules ask of a job that is tried out in front of a stop. -/
structure Allows (volumes : Volumes α) (t : Trial α) (d : Destination α) : Prop where
  laden : ¬ (t.gap.next.isBase = true ∧ t.load.isEmpty = true)
  fits : (t.load + d.demand).fits (t.vehicle.tripCapacity t.gap.trip) = true
  loadable : ∀ location, t.unloadLocation = some location →
    volumes.isLoadable location d.demand = .ok true

/-- Where no room lacks and the trip is not closed unladen, a job is allowed. -/
theorem allows_of_room
    (asked : ∀ location, t.unloadLocation = some location →
      ∃ takes, volumes.isLoadable location d.demand = .ok takes)
    (laden : ¬ (t.gap.next.isBase = true ∧ t.load.isEmpty = true))
    (room : ¬ t.LacksRoom volumes d) : t.Allows volumes d := by
  refine ⟨laden, Bool.eq_true_of_not_eq_false fun exceeds => room (.inl exceeds),
    fun location unloads => ?_⟩
  obtain ⟨takes, answer⟩ := asked location unloads
  cases takes with
  | true => exact answer
  | false => exact absurd (.inr ⟨location, unloads, answer⟩) room

/-- In front of a stop a job is allowed, or its trip is given up. -/
theorem verdict_job (stop : t.newStop = .destination job) (served : p.destination job = .ok d)
    (found : plan.routes[t.route]? = some route) (followed : t.gap.next ≠ .finish)
    (inside : t.gap.position < route.length)
    (asked : ∀ location, t.unloadLocation = some location →
      ∃ takes, volumes.isLoadable location d.demand = .ok takes) :
    (t.verdict p plan volumes = .ok .fulfilled ↔ t.Allows volumes d) ∧
      (t.verdict p plan volumes = .ok .breakTrip ↔ ¬ t.Allows volumes d) := by
  have either : t.verdict p plan volumes = .ok .fulfilled ∧ t.Allows volumes d ∨
      t.verdict p plan volumes = .ok .breakTrip ∧ ¬ t.Allows volumes d := by
    by_cases unladen : t.gap.next.isBase = true ∧ t.load.isEmpty = true
    · have capacity : t.capacityVerdict p plan = .ok .breakTrip := by
        rw [capacityVerdict_eq stop served found, if_neg followed, unladen.1, unladen.2,
          decide_eq_true inside]
        rfl
      refine .inr ⟨?_, fun allows => allows.laden unladen⟩
      rw [verdict, capacity]
      rfl
    · by_cases lacks : t.LacksRoom volumes d
      · refine .inr ⟨lacks.verdict stop found served, fun allows => ?_⟩
        rcases lacks with exceeds | ⟨location, unloads, full⟩
        · cases exceeds.symm.trans allows.fits
        · cases full.symm.trans (allows.loadable location unloads)
      · have allows := allows_of_room asked unladen lacks
        have laden : (t.gap.next.isBase && decide (t.gap.position < route.length) &&
            t.load.isEmpty) = false := by
          simpa [inside] using unladen
        exact .inl ⟨verdict_destination stop served found followed laden allows.fits
          allows.loadable, allows⟩
  rcases either with ⟨agreed, allows⟩ | ⟨broken, refused⟩
  · simp [agreed, allows]
  · simp [broken, refused]

end

end Trial

/-! ### What a gap admits -/

section

variable {α : Type} [Quantity α]

/-- With a job in a gap, the closed trip that takes it up stays within the capacity for that trip, and
the location where the trip unloads absorbs the demand. -/
def Plan.Admits (p : Problem α) (plan : Plan α) (v : Vehicle α) (stops : List Stop) (job : Nat)
    (gap : Gap) : Prop :=
  ∃ joined location,
    (closedTrips (stops.insertIdx gap.position (.destination job)))[gap.trip]? = some joined ∧
    job ∈ joined.jobs ∧ (p.demandOf joined.jobs).fits (v.tripCapacity gap.trip) = true ∧
    plan.pool.locationOf joined.base = some location ∧
    plan.Absorbs p location (p.demand job)

/-- Whether a gap lies right in front of the base of a trip that carries nothing. -/
def Gap.ClosesUnladen (p : Problem α) (stops : List Stop) (gap : Gap) : Prop :=
  gap.next.isBase = true ∧
    ∃ t, (closedTrips stops)[gap.trip]? = some t ∧ (p.demandOf t.jobs).isEmpty = true

/-- A plan in trips, with a ledger that knows them and bases where volumes are tracked. -/
structure Plan.Legible (p : Problem α) (bases : Nat) (plan : Plan α) : Prop where
  inTrips : plan.AllInTrips False p.destinations.size bases
  agrees : ∀ r, plan.Agrees p r
  tracks : plan.pool.Lies p.Tracks

end

/-- A closed trip that takes up a job keeps its base and its number. -/
theorem closedTrip_insert {before after : List Stop} {t : Trip} (job : Nat)
    (found : (closedTrips (before ++ after))[basesIn before]? = some t) :
    ∃ joined, (closedTrips (before ++ .destination job :: after))[basesIn before]? = some joined ∧
      joined.base = t.base ∧ joined.jobs.Perm (job :: t.jobs) := by
  rcases takesUp_insert job before after with
    ⟨_, _, number⟩ | ⟨first, last, trip, joined, was, is, number, base, served, _⟩
  · have inside := (List.getElem?_eq_some_iff.mp found).1
    rw [closedTrips, number] at inside
    exact absurd inside (Nat.lt_irrefl _)
  · rw [← closedTrips] at was is
    rw [was, ← number, List.getElem?_append_right (Nat.le_refl _), Nat.sub_self] at found
    cases found
    refine ⟨joined, ?_, base, served⟩
    rw [is, ← number, List.getElem?_append_right (Nat.le_refl _), Nat.sub_self]
    rfl

variable {p : Problem Rat} {bases job r : Nat} {plan : Plan Rat} {volumes : Volumes Rat}
  {route : Route} {v : Vehicle Rat} {d : Destination Rat} {gap : Gap} {before after : List Stop}

/-- With the volumes counted anew, a plan that loses no stop is known exactly, as long as the ledger
knows its trips and its bases lie where volumes are tracked. -/
theorem Plan.rebuild_exact (conserved : Conserved p.destinations.size bases plan)
    (agrees : ∀ r, plan.Agrees p r) (tracks : plan.pool.Lies p.Tracks) :
    ∃ volumes, Volumes.rebuild plan (.ofSites p.sites) = .ok () volumes ∧
      Work.Exact p bases ⟨plan, volumes⟩ ∧
      ∀ location, p.Tracks location → (volumes.tracked? location).isSome = true := by
  obtain ⟨volumes, counted, cleared⟩ := Volumes.rebuild_answers agrees
    fun _ _ b location _ _ lies => tracks b location lies
  have counts : Ends (Volumes.rebuild plan) _ _ (Volumes.ofSites p.sites) :=
    Plan.rebuild_counts agrees
  rw [Ends, counted] at counts
  refine ⟨volumes, counted, ⟨conserved, agrees, counts.1.follows (Volumes.follows_ofSites p),
    counts.2⟩, fun location here => ?_⟩
  rw [Volumes.isSome_tracked?_of_clear cleared]
  exact here

/-- A gap in front of a stop belongs to a closed trip that serves a job, and the ledger knows it. -/
theorem Plan.Legible.tripAt (legible : plan.Legible p bases)
    (found : plan.routes[r]? = some route) (split : route.stops = before ++ after)
    (followed : after ≠ []) :
    ∃ t location, (closedTrips (before ++ after))[basesIn before]? = some t ∧ t.jobs ≠ [] ∧
      plan.pool.locationOf t.base = some location ∧
      plan.ledger.load r (basesIn before) = p.demandOf t.jobs ∧
      plan.ledger.unloadLocation? r (basesIn before) = some location := by
  have visits : plan.Visits r (before ++ after) := split ▸ visits_of_route found
  have shape := legible.inTrips.routes r _ visits
  have inside := basesIn_lt_of_closed (shape.closed id) followed
  have there := List.getElem?_eq_getElem (length_closedTrips (before ++ after) ▸ inside)
  have member := List.mem_of_getElem? there
  obtain ⟨location, lies⟩ := shape.located _ (stops_of_mem_closedTrips member).1
  have entry := (legible.agrees r).trip_eq visits there
  refine ⟨_, location, there, shape.serves _ member, lies, ?_, ?_⟩
  · rw [Ledger.load, Ledger.load?, entry]
    rfl
  · rw [Ledger.unloadLocation?, entry, lies]

/-- The rules admit a job to a gap in front of a stop just where there is room, but for the gap in
front of the base of a trip that carries nothing. -/
theorem Plan.Legible.verdict_iff (legible : plan.Legible p bases)
    (exact : Work.Exact p bases ⟨plan, volumes⟩)
    (tracked : ∀ b location, plan.pool.locationOf b = some location →
      (volumes.tracked? location).isSome = true)
    (waits : job ∈ plan.unassigned) (found : plan.routes[r]? = some route)
    (split : route.stops = before ++ after) (followed : after ≠ [])
    (between : gap.Between before after) (v : Vehicle Rat) :
    let trial : Trial Rat := ⟨r, v, .destination job, gap, plan.ledger.load r gap.trip,
      plan.ledger.unloadLocation? r gap.trip⟩
    let admitted := plan.Admits p v route.stops job gap ∧ ¬ gap.ClosesUnladen p route.stops
    (trial.verdict p plan volumes = .ok .fulfilled ↔ admitted) ∧
      (trial.verdict p plan volumes = .ok .breakTrip ↔ ¬ admitted) := by
  intro trial admitted
  obtain ⟨t, location, there, _, lies, load, unloads⟩ := legible.tripAt found split followed
  obtain ⟨joined, thereNow, base, served⟩ := closedTrip_insert job there
  rw [← between.trip_eq] at there thereNow load unloads
  obtain ⟨d, known⟩ : ∃ d, p.destination job = .ok d := by
    have below := legible.inTrips.conserved.unassigned_lt waits
    exact ⟨p.destinations[job], by simp [Problem.destination, below]⟩
  have demand := Problem.demand_eq known
  obtain ⟨next, rest, rfl⟩ := List.exists_cons_of_ne_nil followed
  have unfinished : gap.next ≠ .finish := by simp [between.next_eq]
  have inside : gap.position < route.length := by simp [Route.length, split, between.position_eq]
  have tracks := tracked t.base location lies
  have verdict := trial.verdict_job rfl known found unfinished inside fun place same => by
    cases unloads.symm.trans same
    exact Volumes.isLoadable_answers tracks d.demand
  have fits : (p.demandOf joined.jobs).fits (v.tripCapacity gap.trip) = true ↔
      (plan.ledger.load r gap.trip + d.demand).fits (v.tripCapacity gap.trip) = true := by
    rw [load, ← demand, ← Problem.demandOf_append_singleton]
    exact Problem.fits_perm (served.trans (List.perm_append_singleton job t.jobs).symm)
  have absorbs : volumes.isLoadable location d.demand = .ok true ↔
      plan.Absorbs p location d.demand := exact.isLoadable_iff tracks
  have whole : (before ++ next :: rest).insertIdx gap.position (.destination job) =
      before ++ .destination job :: next :: rest := by
    rw [between.position_eq, insertIdx_between]
  have unladen : gap.ClosesUnladen p route.stops ↔
      gap.next.isBase = true ∧ (plan.ledger.load r gap.trip).isEmpty = true := by
    simp only [Gap.ClosesUnladen, split, there, load, Option.some.injEq, exists_eq_left']
  have allows : trial.Allows volumes d ↔ admitted := by
    constructor
    · rintro ⟨laden, room, loadable⟩
      refine ⟨⟨joined, location, ?_, served.symm.subset List.mem_cons_self, fits.mpr room,
        base ▸ lies, demand ▸ absorbs.mp (loadable location unloads)⟩, unladen.not.mpr laden⟩
      rw [split, whole]
      exact thereNow
    · rintro ⟨⟨other, place, takesUp, _, room, liesThere, absorbed⟩, laden⟩
      rw [split, whole] at takesUp
      cases thereNow.symm.trans takesUp
      cases (base ▸ lies).symm.trans liesThere
      refine ⟨unladen.not.mp laden, fits.mp room, fun other same => ?_⟩
      cases unloads.symm.trans same
      exact absorbs.mpr (demand ▸ absorbed)
  rwa [allows] at verdict

/-! ### Histories -/

/-- A pass over all jobs brings the ledger up to date, and a removal keeps it so. -/
theorem Operation.keepsAgrees {operation : Operation Rat} {jobs : Nat}
    (plain : (∃ settings, operation = .recreate settings) ∨ ∃ given, operation = .ruin given)
    (conserved : Conserved jobs bases plan) (agrees : ∀ r, plan.Agrees p r) :
    Ends (operation.perform p) (fun _ after => ∀ r, after.Agrees p r)
      (fun e after => ∀ reason, e = .refused reason → ∀ r, after.Agrees p r) plan := by
  rcases plain with ⟨settings, rfl⟩ | ⟨given, rfl⟩
  · apply ends_onPlan.mpr
    refine Fill.recreate_ends (Q := fun w => ∀ r, w.plan.Agrees p r)
      (E := fun e w => ∀ reason, e = .refused reason → ∀ r, w.plan.Agrees p r)
      (fun _ _ _ => agrees) fun given => ?_
    exact (insertJobs_fresh conserved.orderly).mono (fun _ _ fresh => fresh.upToDate.agrees)
      fun _ _ left reason refused => (left reason refused).upToDate.agrees
  · simp only [perform, ends_edit, bind_eq_ok]
    refine ⟨fun after done => ?_, fun _ _ _ _ => agrees⟩
    rcases done with ⟨⟨removed, last⟩, ruined, equal⟩
    cases equal
    exact ruin_agrees conserved agrees ruined

/-- Passes over all jobs and removals, in whatever order, leave a legible plan. -/
theorem legible_of_reach {operations : List (Operation Rat)}
    (plain : ∀ operation ∈ operations,
      (∃ settings, operation = .recreate settings) ∨ ∃ given, operation = .ruin given)
    (reached : Plan.reach p operations = .ok plan) :
    plan.Legible p (max p.destinations.size 1) := by
  have refreshes : ∀ operation ∈ operations, operation.Refreshes := by
    intro operation member
    rcases plain operation member with ⟨settings, rfl⟩ | ⟨given, rfl⟩
    · trivial
    · trivial
  have kept : plan.AllInTrips False p.destinations.size (max p.destinations.size 1) ∧
      ∀ r, plan.Agrees p r := by
    refine reach_keeps (fun plan : Plan Rat =>
      plan.AllInTrips False p.destinations.size _ ∧ ∀ r, plan.Agrees p r)
      (fun operation member before kept => ?_) (fun start begins => ?_) reached
    · have agrees := operation.keepsAgrees (plain operation member) kept.1.conserved kept.2
      have inTrips := operation.inTrips p (fun job same => ?_) (fun settings r same => ?_) kept.1
      · exact (inTrips.and agrees).mono (fun _ _ now => now)
          fun _ _ left reason refused => ⟨left.1, left.2 reason refused⟩
      · subst same
        exact refreshes _ member
      · subst same
        exact absurd (plain _ member) (by simp)
    · refine ⟨⟨withPool_conserves begins, fun r stops visits => ?_⟩, agrees_empty begins⟩
      rw [visits_empty begins visits]
      exact .nil False _
  exact ⟨kept.1, kept.2, reach_tracks refreshes reached⟩

/-- All gaps of a route lie between a first part of its stops and the rest. -/
theorem Walk.between_of_mem_gaps {pool : BasePool} {stops : List Stop} {departure : Instant}
    {gaps : List Gap} (walked : Walk.gaps p pool v (.start v departure) stops = .ok gaps)
    (member : gap ∈ gaps) : ∃ before after, stops = before ++ after ∧ gap.Between before after := by
  obtain ⟨i, found⟩ := List.getElem?_of_mem member
  obtain ⟨before, after, split, _, met⟩ := Walk.gap_met walked found
  exact ⟨before, after, split, met.toBetween⟩

/-- After any history of passes over all jobs and removals, with the volumes counted anew: a job that
waits is admitted to a gap in front of a stop just where the trip that takes it up stays within its
capacity and the location where that trip unloads absorbs the demand, but for the gap in front of the
base of a trip that carries nothing.  Every such gap belongs to a trip that serves a job. -/
theorem reach_verdict_iff {operations : List (Operation Rat)}
    (plain : ∀ operation ∈ operations,
      (∃ settings, operation = .recreate settings) ∨ ∃ given, operation = .ruin given)
    (reached : Plan.reach p operations = .ok plan) :
    ∃ volumes, Volumes.rebuild plan (.ofSites p.sites) = .ok () volumes ∧
      ∀ (job r : Nat) (route : Route) (v : Vehicle Rat) (departure : Instant) (gaps : List Gap),
        job ∈ plan.unassigned → plan.routes[r]? = some route →
        Walk.gaps p plan.pool v (.start v departure) route.stops = .ok gaps →
        ∀ gap ∈ gaps, gap.next ≠ .finish →
          let trial : Trial Rat := ⟨r, v, .destination job, gap, plan.ledger.load r gap.trip,
            plan.ledger.unloadLocation? r gap.trip⟩
          let admitted := plan.Admits p v route.stops job gap ∧ ¬ gap.ClosesUnladen p route.stops
          (∃ t, (closedTrips route.stops)[gap.trip]? = some t ∧ t.jobs ≠ []) ∧
            (trial.verdict p plan volumes = .ok .fulfilled ↔ admitted) ∧
            (trial.verdict p plan volumes = .ok .breakTrip ↔ ¬ admitted) := by
  have legible := legible_of_reach plain reached
  obtain ⟨volumes, counted, exact, tracked⟩ :=
    rebuild_exact legible.inTrips.conserved legible.agrees legible.tracks
  have trackedHere (b location : Nat) (lies : plan.pool.locationOf b = some location) :=
    tracked location (legible.tracks b location lies)
  refine ⟨volumes, counted, ?_⟩
  intro job r route v departure gaps waits found walked gap member unfinished trial admitted
  obtain ⟨before, after, split, between⟩ := Walk.between_of_mem_gaps walked member
  have followed : after ≠ [] := by
    rintro rfl
    exact unfinished between.next_eq
  obtain ⟨t, _, there, serves, _⟩ := legible.tripAt found split followed
  refine ⟨⟨t, ?_, serves⟩, legible.verdict_iff exact trackedHere waits found split followed
    between v⟩
  rw [split, between.trip_eq]
  exact there

/-- Two jobs along a line, the first of which has nothing to be taken away. -/
def lightJob : Problem Rat :=
  { twoJobs with
    destinations := #[⟨"a", 1, ⟨[0]⟩, .zero, .always⟩, ⟨"b", 2, ⟨[1]⟩, .zero, .always⟩]
    vehicles := #[⟨"v", 0, none, ⟨[10]⟩, none, some 0, false, none, none⟩] }

/-- Once the other job was taken out, the light job is alone on its trip. -/
theorem reach_lightJob :
    ∃ plan volumes route v gaps,
      Plan.reach lightJob [.recreate (.forProblem lightJob .standard), .ruin [1]] = .ok plan ∧
      Volumes.rebuild plan (.ofSites lightJob.sites) = .ok () volumes ∧
      plan.unassigned = [1] ∧ plan.routes[0]? = some route ∧
      route.stops = [.destination 0, .base 0] ∧ plan.pool.locationOf 0 = some 3 ∧
      v.tripCapacity 0 = ⟨[10]⟩ ∧
      Walk.gaps lightJob plan.pool v (.start v v.departure) route.stops = .ok gaps ∧
      gaps.map (fun gap => (gap.position, gap.next, gap.trip)) =
        [(0, .at (.destination 0), 0), (1, .at (.base 0), 0), (2, .finish, 1)] ∧
      ∀ gap ∈ gaps, gap.position = 1 →
        Trial.verdict lightJob plan volumes ⟨0, v, .destination 1, gap,
          plan.ledger.load 0 gap.trip, plan.ledger.unloadLocation? 0 gap.trip⟩ =
          .ok .breakTrip := by
  have run : (do
      let plan ← Plan.reach lightJob [.recreate (.forProblem lightJob .standard), .ruin [1]]
      let route ← plan.route 0
      let v ← lightJob.vehicle 0
      let gaps ← Walk.gaps lightJob plan.pool v (.start v v.departure) route.stops
      match Volumes.rebuild plan (.ofSites lightJob.sites) with
      | .error e _ => .error e
      | .ok _ volumes =>
        .ok (decide (plan.unassigned = [1] ∧ route.stops = [.destination 0, .base 0] ∧
          plan.pool.locationOf 0 = some 3 ∧ v.tripCapacity 0 = ⟨[10]⟩ ∧
          gaps.map (fun gap => (gap.position, gap.next, gap.trip)) =
            [(0, .at (.destination 0), 0), (1, .at (.base 0), 0), (2, .finish, 1)] ∧
          ∀ gap ∈ gaps, gap.position = 1 →
            Trial.verdict lightJob plan volumes ⟨0, v, .destination 1, gap,
              plan.ledger.load 0 gap.trip, plan.ledger.unloadLocation? 0 gap.trip⟩ =
              .ok .breakTrip))) = Except.ok true := by
    decide +kernel
  simp only [bind_eq_ok] at run
  rcases run with ⟨plan, reached, route, found, v, drives, gaps, walked, run⟩
  cases counted : Volumes.rebuild plan (.ofSites lightJob.sites) with
  | error e after =>
      rw [counted] at run
      cases run
  | ok _ volumes =>
      rw [counted] at run
      have facts := of_decide_eq_true (Except.ok.inj run)
      obtain ⟨waits, stops, lies, capacity, shape, verdict⟩ := facts
      exact ⟨plan, volumes, route, v, gaps, reached, counted, waits, route_eq_ok.mp found, stops,
        lies, capacity, walked, shape, verdict⟩

/-- Both gaps of the trip have room. -/
theorem admits_lightJob {plan : Plan Rat} {v : Vehicle Rat} {gap : Gap}
    (lies : plan.pool.locationOf 0 = some 3) (capacity : v.tripCapacity 0 = ⟨[10]⟩)
    (position : gap.position = 0 ∨ gap.position = 1) (trip : gap.trip = 0) :
    plan.Admits lightJob v [.destination 0, .base 0] 1 gap := by
  have absorbs : plan.Absorbs lightJob 3 (lightJob.demand 1) := by
    intro limit limited
    cases limited
  rw [Admits, trip, capacity]
  rcases position with first | second
  · rw [first]
    exact ⟨⟨[1, 0], 0⟩, 3, rfl, by decide, by decide +kernel, lies, absorbs⟩
  · rw [second]
    exact ⟨⟨[0, 1], 0⟩, 3, rfl, by decide, by decide +kernel, lies, absorbs⟩

/-- The other job fits the trip of the light job, and its site takes it, but between the light job and
the base it is refused. -/
theorem reach_refuses_lightJob :
    ∃ plan volumes route v gaps, ∃ gap ∈ gaps,
      Plan.reach lightJob [.recreate (.forProblem lightJob .standard), .ruin [1]] = .ok plan ∧
      Volumes.rebuild plan (.ofSites lightJob.sites) = .ok () volumes ∧
      1 ∈ plan.unassigned ∧ plan.routes[0]? = some route ∧
      Walk.gaps lightJob plan.pool v (.start v v.departure) route.stops = .ok gaps ∧
      gap.next = .at (.base 0) ∧ (closedTrips route.stops)[gap.trip]? = some ⟨[0], 0⟩ ∧
      let trial : Trial Rat := ⟨0, v, .destination 1, gap, plan.ledger.load 0 gap.trip,
        plan.ledger.unloadLocation? 0 gap.trip⟩
      plan.Admits lightJob v route.stops 1 gap ∧
        trial.verdict lightJob plan volumes = .ok .breakTrip := by
  obtain ⟨plan, volumes, route, v, gaps, reached, counted, waits, found, stops, lies, capacity,
    walked, shape, broken⟩ := reach_lightJob
  obtain ⟨_, _, rfl, _, rest⟩ := List.map_eq_cons_iff.mp shape
  obtain ⟨gap, _, rfl, same, _⟩ := List.map_eq_cons_iff.mp rest
  simp only [Prod.mk.injEq] at same
  obtain ⟨position, next, trip⟩ := same
  refine ⟨plan, volumes, route, v, _, gap, by simp, reached, counted, by simp [waits], found, walked,
    next, ?_, ?_, broken gap (by simp) position⟩
  · rw [stops, trip]
    rfl
  · rw [stops]
    exact admits_lightJob lies capacity (.inr position) trip

/-- In front of the light job the other one is admitted. -/
theorem reach_verdict_iff_lightJob :
    ∃ plan volumes route v gaps, ∃ gap ∈ gaps,
      Plan.reach lightJob [.recreate (.forProblem lightJob .standard), .ruin [1]] = .ok plan ∧
      Volumes.rebuild plan (.ofSites lightJob.sites) = .ok () volumes ∧
      1 ∈ plan.unassigned ∧ plan.routes[0]? = some route ∧
      Walk.gaps lightJob plan.pool v (.start v v.departure) route.stops = .ok gaps ∧
      gap.next = .at (.destination 0) ∧
      let trial : Trial Rat := ⟨0, v, .destination 1, gap, plan.ledger.load 0 gap.trip,
        plan.ledger.unloadLocation? 0 gap.trip⟩
      trial.verdict lightJob plan volumes = .ok .fulfilled := by
  obtain ⟨plan, volumes, route, v, gaps, reached, counted, waits, found, stops, lies, capacity,
    walked, shape, _⟩ := reach_lightJob
  obtain ⟨gap, _, rfl, same, _⟩ := List.map_eq_cons_iff.mp shape
  simp only [Prod.mk.injEq] at same
  obtain ⟨position, next, trip⟩ := same
  have waiting : 1 ∈ plan.unassigned := by simp [waits]
  obtain ⟨again, countedAgain, each⟩ := reach_verdict_iff (by simp) reached
  cases counted.symm.trans countedAgain
  obtain ⟨_, admitted, _⟩ :=
    each 1 0 route v v.departure _ waiting found walked gap (by simp) (by simp [next])
  refine ⟨plan, volumes, route, v, _, gap, by simp, reached, counted, waiting, found, walked, next,
    admitted.mpr ⟨?_, fun unladen => ?_⟩⟩
  · rw [stops]
    exact admits_lightJob lies capacity (.inl position) trip
  · have closes := unladen.1
    rw [next] at closes
    cases closes

end Haulage

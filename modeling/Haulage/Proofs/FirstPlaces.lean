/-
Module: Haulage.Proofs.FirstPlaces
Purpose: Where a base finds a place in a route.  A trip may be split where a base may stand and some
  location that is offered absorbs what the trip has loaded up to there.  The search ends at the first
  such position, and finds nothing only if there is none.
Main exports: MayStand, Plan.SplitsAt, Plan.MaySplit, Plan.FirstSplit, Plan.FirstPlace,
  Survey.firstPlace_first
-/
import Haulage.Proofs.CheapestBases
import Haulage.Proofs.Prospects

namespace Haulage

open Attempt Plan Problem

/-! ### Where a trip may be split -/

/-- A base may stand between some stops and others: behind a job and not in front of a base. -/
def MayStand (before after : List Stop) : Prop :=
  (∃ front job, before = front ++ [.destination job]) ∧
    after.head?.all (·.isDestination) = true

/-- What is asked for a base between some stops that a vehicle serves and others that lie ahead. -/
def splitQuery (p : Problem Rat) (v : Vehicle Rat) (counts : List LocationCount)
    (before after : List Stop) (previous next : Option Nat) : LocationQuery Rat :=
  { vehicle := v, isLastTrip := after.isEmpty, trip := basesIn before,
    fillPercent := (p.demandOf (openJobs before)).fillPercent (v.tripCapacity (basesIn before)),
    counts := counts, previous := previous, next := next }

/-- A trip may be split between some stops and others.  A base stands there behind a job and not in
front of a base, and a location that is offered for it absorbs the load of the trip up to there. -/
structure Plan.SplitsAt (p : Problem Rat) (plan : Plan Rat) (provider : LocationProvider Rat)
    (v : Vehicle Rat) (before after : List Stop) (location : Nat) : Prop where
  offered : ∃ front job d next offered, before = front ++ [.destination job] ∧
    p.destination job = .ok d ∧ p.Ahead v after next ∧
    provider.offers (splitQuery p v (plan.pool.unloadCounts (before ++ after)) before after
      (some d.location) next) = .ok offered ∧ location ∈ offered
  absorbs : plan.Absorbs p location (p.demandOf (openJobs before))

/-- A base may be put at a position of a route. -/
def Plan.MaySplit (p : Problem Rat) (plan : Plan Rat) (provider : LocationProvider Rat)
    (v : Vehicle Rat) (stops : List Stop) (position : Nat) : Prop :=
  ∃ before after location, stops = before ++ after ∧ before.length = position ∧
    plan.SplitsAt p provider v before after location

/-- What is proposed for a base that is to be put behind some stops of a route, at a location. -/
def Proposal.closing (r : Nat) (route : Route) (departure : Instant) (before : List Stop)
    (b location : Nat) (duration : Duration) : Proposal :=
  { route := r, position := before.length, trip := basesIn before, vehicle := route.vehicle,
    departure := departure,
    changes := [.insert r before.length (.base b), .place b location duration] }

/-- The stops of a route are cut where a trip may be split first. -/
structure Plan.FirstSplit (p : Problem Rat) (plan : Plan Rat) (provider : LocationProvider Rat)
    (v : Vehicle Rat) (stops before after : List Stop) (location : Nat) : Prop where
  stops_eq : stops = before ++ after
  splits : plan.SplitsAt p provider v before after location
  first : ∀ position < before.length, ¬plan.MaySplit p provider v stops position

/-- Where a base is to be put into a route: where a trip may be split first, or nowhere. -/
inductive Plan.FirstPlace (p : Problem Rat) (plan : Plan Rat) (provider : LocationProvider Rat)
    (v : Vehicle Rat) (r b : Nat) (route : Route) (departure : Instant) : Option Proposal → Prop
  | nowhere (never : ∀ position, ¬plan.MaySplit p provider v route.stops position) :
      FirstPlace p plan provider v r b route departure none
  | behind {before after : List Stop} {location : Nat} {duration : Duration}
      (split : plan.FirstSplit p provider v route.stops before after location) :
      FirstPlace p plan provider v r b route departure
        (some (.closing r route departure before b location duration))

section

variable {p : Problem Rat} {plan pooled : Plan Rat} {provider : LocationProvider Rat}
  {v : Vehicle Rat} {r : Nat} {before after stops : List Stop} {location : Nat}

theorem Plan.MaySplit.le_length {position : Nat}
    (may : plan.MaySplit p provider v stops position) : position ≤ stops.length := by
  obtain ⟨before, after, _, rfl, rfl, _⟩ := may
  rw [List.length_append]
  exact Nat.le_add_right _ _

theorem BasePool.unloadCounts_congr {pool other : BasePool}
    (same : ∀ b, .base b ∈ stops → other.locationOf b = pool.locationOf b) :
    other.unloadCounts stops = pool.unloadCounts stops := by
  rw [unloadCounts, unloadCounts]
  congr 1
  exact List.filterMap_congr fun t closed => same t.base (stops_of_mem_closedTrips closed).1

theorem Plan.tripsTo_refreshBases (done : plan.refreshBases = .ok pooled) (location : Nat) :
    pooled.tripsTo location = plan.tripsTo location := by
  obtain ⟨itineraries, _, locations⟩ := refreshBases_keeps done
  rw [tripsTo, tripsTo, trips_congr itineraries]
  refine List.filter_congr fun t member => ?_
  obtain ⟨i, stops, visits, visited⟩ := visits_of_mem_trips member
  rw [locations i stops t.base visits visited]

/-- A refresh of the pool does not matter for where a trip may be split. -/
theorem Plan.splitsAt_refreshBases (done : plan.refreshBases = .ok pooled)
    (visits : plan.Visits r (before ++ after)) :
    pooled.SplitsAt p provider v before after location ↔
      plan.SplitsAt p provider v before after location := by
  obtain ⟨_, _, locations⟩ := refreshBases_keeps done
  have counts : pooled.pool.unloadCounts (before ++ after) =
      plan.pool.unloadCounts (before ++ after) :=
    BasePool.unloadCounts_congr fun b member => locations r _ b visits member
  have absorbs {load : Load Rat} : pooled.Absorbs p location load ↔ plan.Absorbs p location load := by
    rw [Absorbs, Absorbs, tripsTo_refreshBases done]
  constructor
  · rintro ⟨offered, room⟩
    exact ⟨counts ▸ offered, absorbs.mp room⟩
  · rintro ⟨offered, room⟩
    exact ⟨counts ▸ offered, absorbs.mpr room⟩

theorem Plan.maySplit_refreshBases (done : plan.refreshBases = .ok pooled)
    (visits : plan.Visits r stops) (position : Nat) :
    pooled.MaySplit p provider v stops position ↔ plan.MaySplit p provider v stops position := by
  constructor
  · rintro ⟨before, after, location, rfl, here, splits⟩
    exact ⟨before, after, location, rfl, here, (splitsAt_refreshBases done visits).mp splits⟩
  · rintro ⟨before, after, location, rfl, here, splits⟩
    exact ⟨before, after, location, rfl, here, (splitsAt_refreshBases done visits).mpr splits⟩

theorem Plan.FirstSplit.of_refreshBases (done : plan.refreshBases = .ok pooled)
    (visits : plan.Visits r stops)
    (split : pooled.FirstSplit p provider v stops before after location) :
    plan.FirstSplit p provider v stops before after location := by
  refine ⟨split.stops_eq, ?_, fun position earlier may => ?_⟩
  · exact (splitsAt_refreshBases done (split.stops_eq ▸ visits)).mp split.splits
  · exact split.first position earlier ((maySplit_refreshBases done visits position).mpr may)

theorem Plan.SplitsAt.mayStand (splits : plan.SplitsAt p provider v before after location) :
    MayStand before after := by
  obtain ⟨front, job, _, _, _, behind, _, ahead, _⟩ := splits.offered
  refine ⟨⟨front, job, behind⟩, ?_⟩
  cases ahead with
  | finish => rfl
  | job => rfl

end

/-! ### A look at one gap -/

section

variable {p : Problem Rat} {settings : Settings Rat} {plan : Plan Rat} {volumes : Volumes Rat}
  {v : Vehicle Rat} {r b : Nat} {route : Route} {departure : Instant} {before after : List Stop}
  {gap : Gap}

/-- Behind a job and not in front of a base, a vehicle comes from the job and heads for what lies
ahead. -/
theorem Gap.Met.neighbours {front : List Stop} {job : Nat}
    (met : gap.Met p plan.pool v departure before after)
    (behind : before = front ++ [.destination job])
    (unclosed : after.head?.all (·.isDestination) = true) :
    ∃ d, p.destination job = .ok d ∧ gap.previousLocation = some d.location ∧
      p.Ahead v after gap.nextLocation := by
  obtain ⟨visits, comes⟩ := met.comes
  rw [behind] at comes
  obtain ⟨_, _, _, _, _, last, _⟩ := Route.visitsFrom_append.mp comes
  simp only [Route.visitsFrom, bind_eq_ok] at last
  rcases last with ⟨lies, there, _, _, _, _, _, _, _, ⟨⟩, equal⟩
  obtain ⟨d, served, rfl⟩ := stopLocation_destination.mp there
  have comesFrom : gap.previousLocation = some d.location := by
    simpa using (congrArg (fun found => found.2.1) (Except.ok.inj equal)).symm
  refine ⟨d, served, comesFrom, ?_⟩
  cases after with
  | nil => exact met.nextLocation_eq ▸ .finish
  | cons stop rest =>
      cases stop with
      | base c => cases unclosed
      | destination ahead =>
          have heads := met.heads
          simp only [Problem.headsFor, bind_eq_ok] at heads
          obtain ⟨_, lies, equal⟩ := heads
          obtain ⟨e, found, rfl⟩ := stopLocation_destination.mp lies
          rw [← Except.ok.inj equal]
          exact .job found

/-- A base may stand in a gap behind a job and not in front of a base, and in no other. -/
theorem Trial.sequenceVerdict_iff {t : Trial Rat} {location : Nat} {duration : Duration}
    (stop : t.newStop = .base b location duration) (between : t.gap.Between before after) :
    t.sequenceVerdict = .fulfilled ↔ MayStand before after := by
  constructor
  · intro agreed
    have isBase : t.newStop.isBase = true := by
      rw [stop]
      rfl
    obtain ⟨started, apart, free⟩ := sequenceVerdict_base isBase agreed
    refine ⟨between.exists_job started apart, ?_⟩
    rw [between.next_eq] at free
    cases after with
    | nil => rfl
    | cons stop rest => simpa [Waypoint.isBase, Stop.isDestination] using free
  · rintro ⟨⟨front, job, rfl⟩, unclosed⟩
    have previous : t.gap.previous = .at (.destination job) := by
      rw [between.previous_eq]
      simp
    apply sequenceVerdict_behind stop previous
    rw [between.next_eq]
    cases after with
    | nil => rfl
    | cons stop rest => simpa [Waypoint.isBase, Stop.isDestination] using unclosed

theorem Trial.sequenceVerdict_ne_breakTrip (t : Trial Rat) : t.sequenceVerdict ≠ .breakTrip := by
  rw [sequenceVerdict]
  split
  · simp
  · simp

namespace Survey

/-- What is asked for a base in a gap. -/
def baseQuery (s : Survey Rat) (v : Vehicle Rat) (r : Nat) (gap : Gap) : LocationQuery Rat :=
  { vehicle := v, isLastTrip := decide (gap.next = .finish), trip := gap.trip,
    fillPercent := (s.loadBefore r gap).fillPercent (v.tripCapacity gap.trip),
    counts := locationCounts s.plan.ledger r, previous := gap.previousLocation,
    next := gap.nextLocation }

section

variable {s : Survey Rat} {front : List Stop} {job : Nat} (agrees : s.plan.Agrees s.problem r)
  (found : s.plan.routes[r]? = some route) (split : route.stops = before ++ after)
  (behind : before = front ++ [.destination job])
include agrees found split behind

/-- The load noted behind a job is what the trip has taken up by then. -/
theorem loadBefore_eq (between : gap.Between before after) :
    s.loadBefore r gap = s.problem.demandOf (openJobs before) := by
  have isJob : gap.previous.isDestination = true := by
    rw [between.previous_eq, behind]
    simp [Waypoint.isDestination, Stop.isDestination]
  have position : gap.position - 1 = front.length := by
    rw [between.position_eq, behind, List.length_append, List.length_singleton, Nat.add_sub_cancel]
  have noted := (agrees _ (visits_of_route found)).load_at front job after (by simp [split, behind])
  rw [loadBefore, if_pos isJob, position, Ledger.stop?, noted, behind, openJobs_append_destination]
  rfl

/-- Behind a job and not in front of a base, it follows from the stops and their bases what is
asked. -/
theorem baseQuery_eq (met : gap.Met s.problem s.plan.pool v departure before after)
    (unclosed : after.head?.all (·.isDestination) = true) :
    ∃ d, s.problem.destination job = .ok d ∧ s.problem.Ahead v after gap.nextLocation ∧
      s.baseQuery v r gap = splitQuery s.problem v (s.plan.pool.unloadCounts (before ++ after))
        before after (some d.location) gap.nextLocation := by
  obtain ⟨d, served, comesFrom, ahead⟩ := met.neighbours behind unclosed
  have last : decide (gap.next = .finish) = after.isEmpty := by
    rw [met.next_eq]
    cases after with
    | nil => rfl
    | cons stop rest => rfl
  refine ⟨d, served, ahead, ?_⟩
  rw [baseQuery, splitQuery, last, met.trip_eq,
    loadBefore_eq agrees found split behind met.toBetween, agrees.locationCounts_eq found, split,
    comesFrom]

end

variable (agrees : plan.Agrees p r) (counts : volumes.Counts (plan.unloads p))
  (follows : volumes.Follows p)
  (sites : ∀ location, settings.provider.Offers location → location ∈ p.unloadLocations)
  (found : plan.routes[r]? = some route)
include agrees counts follows sites found

/-- Where a base may stand, a location is chosen for it only if a trip may be split there. -/
theorem splitsAt_of_chosen {location : Nat} (split : route.stops = before ++ after)
    (met : gap.Met p plan.pool v departure before after)
    (stands : MayStand before after)
    (choice : cheapestLoadable p settings.provider volumes
      ((settings.survey p plan volumes true).baseQuery v r gap)
      ((settings.survey p plan volumes true).loadBefore r gap) = .ok (some location)) :
    plan.SplitsAt p settings.provider v before after location := by
  obtain ⟨⟨front, job, behind⟩, unclosed⟩ := stands
  obtain ⟨d, served, ahead, query⟩ := baseQuery_eq (s := settings.survey p plan volumes true) agrees
    found split behind met unclosed
  have load := loadBefore_eq (s := settings.survey p plan volumes true) agrees found split behind
    met.toBetween
  rw [query, load] at choice
  obtain ⟨offered, offers, among, takes⟩ := cheapestLoadable_eq_some choice
  have site := sites location ⟨_, offered, offers, among⟩
  exact ⟨⟨front, job, d, _, offered, behind, served, ahead, offers, among⟩,
    (counts.isLoadable_iff follows (follows.sites location site)).mp takes⟩

/-- Where a trip may be split, a location is chosen. -/
theorem chosen_of_splitsAt {location : Nat} {chosen : Option Nat}
    (split : route.stops = before ++ after) (met : gap.Met p plan.pool v departure before after)
    (splits : plan.SplitsAt p settings.provider v before after location)
    (choice : cheapestLoadable p settings.provider volumes
      ((settings.survey p plan volumes true).baseQuery v r gap)
      ((settings.survey p plan volumes true).loadBefore r gap) = .ok chosen) :
    chosen.isSome = true := by
  obtain ⟨front, job, d, next, offered, behind, served, ahead, offers, among⟩ := splits.offered
  obtain ⟨_, again, aheadToo, query⟩ := baseQuery_eq (s := settings.survey p plan volumes true)
    agrees found split behind met splits.mayStand.2
  cases served.symm.trans again
  cases ahead.unique aheadToo
  have load := loadBefore_eq (s := settings.survey p plan volumes true) agrees found split behind
    met.toBetween
  rw [query, load] at choice
  have site := sites location ⟨_, offered, offers, among⟩
  have takes := (counts.isLoadable_iff follows (follows.sites location site)).mpr splits.absorbs
  exact cheapestLoadable_finds offers among takes choice

/-- A look at a gap finds the place for a base exactly where a trip may be split. -/
theorem lookForBase_step {step : ForInStep (Option Proposal)}
    (split : route.stops = before ++ after) (met : gap.Met p plan.pool v departure before after)
    (looked : (settings.survey p plan volumes true).lookForBase
      ⟨r, route.vehicle, v, departure, .base b⟩ route b (locationCounts plan.ledger r) none gap =
        .ok step) :
    step = .yield none ∧ ¬plan.MaySplit p settings.provider v route.stops before.length ∨
      ∃ location duration,
        step = .done (some (.closing r route departure before b location duration)) ∧
        plan.SplitsAt p settings.provider v before after location := by
  have here : plan.MaySplit p settings.provider v route.stops before.length →
      ∃ location, plan.SplitsAt p settings.provider v before after location := by
    rintro ⟨front, rest, location, again, length, splits⟩
    obtain ⟨rfl, rfl⟩ := List.append_inj (split.symm.trans again) length.symm
    exact ⟨location, splits⟩
  rw [lookForBase, bind_eq_ok] at looked
  obtain ⟨chosen, choice, looked⟩ := looked
  have finds {location : Nat} (splits : plan.SplitsAt p settings.provider v before after location) :
      chosen.isSome = true :=
    chosen_of_splitsAt agrees counts follows sites found split met splits choice
  cases chosen with
  | none =>
      cases looked
      refine .inl ⟨rfl, fun may => ?_⟩
      obtain ⟨location, splits⟩ := here may
      cases finds splits
  | some location =>
      obtain ⟨_, _, _, takes⟩ := cheapestLoadable_eq_some choice
      simp only [bind_eq_ok] at looked
      obtain ⟨arrival, _, duration, _, verdict, agreed, looked⟩ := looked
      let trial : Trial Rat := ⟨r, v, .base b location duration, gap,
        (settings.survey p plan volumes true).loadBefore r gap, some location⟩
      have judged : trial.verdict p plan volumes = .ok trial.sequenceVerdict :=
        Trial.verdict_base_eq rfl takes
      have agreed : trial.sequenceVerdict = verdict := Except.ok.inj (judged.symm.trans agreed)
      have stands : verdict = .fulfilled ↔ MayStand before after := by
        rw [← agreed]
        exact Trial.sequenceVerdict_iff rfl met.toBetween
      cases verdict with
      | fulfilled =>
          cases looked
          refine .inr ⟨location, duration, ?_, splitsAt_of_chosen agrees counts follows sites found
            split met (stands.mp rfl) choice⟩
          simp [propose, RouteTrial.switchesVehicle, Proposal.closing, met.position_eq, met.trip_eq]
      | continueScan =>
          cases looked
          refine .inl ⟨rfl, fun may => ?_⟩
          obtain ⟨_, splits⟩ := here may
          cases stands.mpr splits.mayStand
      | breakTrip => exact absurd agreed (Trial.sequenceVerdict_ne_breakTrip _)

/-- A base finds the first position at which a trip may be split. -/
theorem firstPlace_first {place : Option Proposal} (drives : p.vehicle route.vehicle = .ok v)
    (done : (settings.survey p plan volumes true).firstPlace r b route.vehicle departure =
      .ok place) : plan.FirstPlace p settings.provider v r b route departure place := by
  simp only [firstPlace] at done
  split at done
  · cases done
  simp only [bind_eq_ok, Plan.route_eq_ok] at done
  obtain ⟨_, again, _, same, scanned⟩ := done
  cases drives.symm.trans again
  cases found.symm.trans same
  refine Walk.scan_along
    (fun before place => place = none ∧
      ∀ position < before.length, ¬plan.MaySplit p settings.provider v route.stops position)
    (plan.FirstPlace p settings.provider v r b route departure) ?_ ?_ ⟨rfl, by simp⟩ scanned
  · rintro before stop after gap _ next split met ⟨rfl, passed⟩ looked
    obtain ⟨equal, here⟩ | ⟨_, _, equal, _⟩ :=
      lookForBase_step agrees counts follows sites found split met looked
    · cases equal
      refine ⟨rfl, fun position below => ?_⟩
      rw [List.length_append, List.length_singleton, Nat.lt_succ_iff_lt_or_eq] at below
      rcases below with earlier | rfl
      · exact passed position earlier
      · exact here
    · cases equal
  · rintro before after gap _ step split met ⟨rfl, passed⟩ looked ended
    obtain ⟨rfl, here⟩ | ⟨location, duration, rfl, splits⟩ :=
      lookForBase_step agrees counts follows sites found split met looked
    · obtain rfl : after = [] := ended.resolve_right (by simp)
      refine .nowhere fun position may => ?_
      have inside := may.le_length
      rw [split, List.append_nil] at inside
      rcases Nat.lt_or_eq_of_le inside with earlier | rfl
      · exact passed position earlier may
      · exact here may
    · exact .behind ⟨split, splits, passed⟩

end Survey

end

end Haulage

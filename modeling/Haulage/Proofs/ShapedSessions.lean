/-
Module: Haulage.Proofs.ShapedSessions
Purpose: The shape that routes keep over a whole history, in whatever order passes, bases and
  removals follow each other.
Main exports: Operation.inTrips, WellShaped, session_wellShaped
-/
import Haulage.Proofs.Shape

namespace Haulage

open Attempt Plan

variable {α : Type} [Quantity α] {splits : Prop} {jobs bases : Nat}

/-! ### Passes -/

section

variable {p : Problem α} {settings : Settings α} {provider : LocationProvider α} {w : Work α}
  {q : Proposal} {f : Fill α}

theorem commit_joins_inTrips {route : Route} {v : Vehicle α} {job : Nat} {demand : Load α}
    {before after : List Stop} (all : w.plan.AllInTrips splits jobs bases)
    (found : w.plan.routes[q.route]? = some route)
    (joins : JoinsTrip w.plan w.volumes route v job demand before after q) :
    Ends (Fill.commit p q) (fun _ next => next.plan.AllInTrips splits jobs bases)
      (fun _ next => next.plan.AllInTrips splits jobs bases) w := by
  have visits := joins.visits found
  apply Work.commit_keeps _ all fun _ _ => AllInTrips.refreshRoute
  refine joins.ends_changes (fun next inserted => ?_) fun _ => all
  have own := (all.routes q.route _ visits).insertJob job joins.followed
  refine all.changed (.insertStop inserted) (Holding.insertStop all.conserved inserted)
    (visits.insertStop inserted) (own.congr fun _ _ => ?_)
  obtain ⟨_, _, _, _, rfl⟩ := insertStop_destination.mp inserted
  rfl

/-- A trip that is opened is closed at once: behind the job there is always room for the base. -/
theorem commit_opens_inTrips {route : Route} {v : Vehicle α} {job b location : Nat}
    {demand : Load α} {duration : Duration} (all : w.plan.AllInTrips splits jobs bases)
    (found : w.plan.routes[q.route]? = some route)
    (opens : OpensTrip w.plan w.volumes provider route v job demand b location duration q) :
    Ends (Fill.commit p q) (fun _ next => next.plan.AllInTrips splits jobs bases)
      (fun _ next => next.plan.AllInTrips splits jobs bases) w := by
  have visits : w.plan.Visits q.route route.stops := visits_of_route found
  apply Work.commit_keeps _ all fun _ _ => AllInTrips.refreshRoute
  rw [opens.changes_eq]
  refine ends_opening all.conserved visits (BasePool.isFree_of_lowestFree? opens.lowest)
    (fun _ => all) fun closed closes => ?_
  have own := (all.routes q.route _ visits).appendJob job
  refine all.changed closes.changes closes.conserved closes.visits (InTrips.close
    (by simpa using own) ?_ rfl ⟨location, closes.placed⟩ closes.kept fun _ => rfl)
  rw [openJobs_append_destination]
  simp

theorem commit_serves_inTrips {job : Nat} (all : w.plan.AllInTrips splits jobs bases)
    (serves : Serves p w.plan w.volumes provider job q) :
    Ends (Fill.commit p q) (fun _ next => next.plan.AllInTrips splits jobs bases)
      (fun _ next => next.plan.AllInTrips splits jobs bases) w := by
  rcases serves with ⟨route, v, d, found, _, _, _, offer⟩
  rcases offer with ⟨before, after, joins⟩ | ⟨b, location, duration, opens⟩
  · exact commit_joins_inTrips all found joins
  · exact commit_opens_inTrips all found opens

/-- A base that splits a trip leaves the jobs behind it to whatever base follows, if one does. -/
theorem commit_splits_inTrips {route : Route} {b job location : Nat} {duration : Duration}
    {before after : List Stop} {load : Load α} (may : splits)
    (all : w.plan.AllInTrips splits jobs bases) (lowest : w.plan.pool.lowestFree? = some b)
    (found : w.plan.routes[q.route]? = some route)
    (divides : SplitsTrip w.plan w.volumes provider route b job location duration before after load
      q) :
    Ends (Fill.commit p q) (fun _ next => next.plan.AllInTrips splits jobs bases)
      (fun _ next => next.plan.AllInTrips splits jobs bases) w := by
  have visits := divides.visits found
  apply Work.commit_keeps _ all fun _ _ => AllInTrips.refreshRoute
  rw [divides.changes_behind]
  refine ends_closing all.conserved visits (BasePool.isFree_of_lowestFree? lowest)
    fun closed closes => ?_
  have own := all.routes q.route _ visits
  have free : InTrips True w.plan.pool (before ++ [.destination job] ++ after) :=
    ⟨own.serves, own.located, fun no => absurd trivial no⟩
  refine all.changed closes.changes closes.conserved closes.visits
    (free.close ?_ divides.unclosed ⟨location, closes.placed⟩ closes.kept fun no => absurd may no)
  rw [openJobs_append_destination]
  simp

/-- A pass begins with a refresh of pool, routes and volumes, which all routes survive. -/
theorem prepare_inTrips (all : f.work.plan.AllInTrips splits jobs bases) :
    Ends (Fill.prepare p) (fun _ g => g.work.plan.AllInTrips splits jobs bases)
      (fun _ g => g.work.plan.AllInTrips splits jobs bases) f := by
  refine Fill.prepare_ends (J := fun w => w.plan.AllInTrips splits jobs bases)
    (E := fun _ w => w.plan.AllInTrips splits jobs bases) (fun _ _ => all)
    (fun pooled e pool _ => all.refreshBases pool) fun pooled fresh pool refreshed => ?_
  have kept := (all.refreshBases pool).refreshRoutes refreshed
  exact ends_of_forall (fun _ _ => kept) fun _ _ => kept

theorem insertions_inTrips (given : List Nat) (all : f.work.plan.AllInTrips splits jobs bases) :
    Ends (Fill.insertions p settings given)
      (fun _ g => g.work.plan.AllInTrips splits jobs bases)
      (fun _ g => g.work.plan.AllInTrips splits jobs bases) f := by
  refine Fill.insertions_ends (fun w => w.plan.AllInTrips splits jobs bases)
    (E := fun _ w => w.plan.AllInTrips splits jobs bases) (prepare_inTrips all) fun job g kept => ?_
  exact Fill.insertJob_ends (fun w => w.plan.AllInTrips splits jobs bases) kept
    (fun _ _ kept _ _ => ⟨kept.conserved.congr rfl rfl rfl, kept.routes⟩) (fun _ _ kept => kept)
    fun _ _ kept serves => commit_serves_inTrips kept serves

theorem insertBase_inTrips (may : splits) (r : Nat)
    (all : f.work.plan.AllInTrips splits jobs bases) :
    Ends (Fill.insertBase p settings r) (fun _ g => g.work.plan.AllInTrips splits jobs bases)
      (fun _ g => g.work.plan.AllInTrips splits jobs bases) f := by
  refine Fill.insertBase_ends (J := fun w => w.plan.AllInTrips splits jobs bases)
    (E := fun _ w => w.plan.AllInTrips splits jobs bases) (fun _ _ => all)
    (fun pooled e pool _ => all.refreshBases pool) (fun pooled fresh pool refreshed => ?_)
    (fun _ _ kept => kept) ?_
  · have kept := (all.refreshBases pool).refreshRoute refreshed
    exact ends_of_forall (fun _ _ => kept) fun _ _ => kept
  · rintro w q route b job location duration before after load kept lowest found rfl divides
    exact commit_splits_inTrips may kept lowest found divides

/-! ### Placement -/

theorem Places.inTrips {r b location : Nat} {placed rest : List Stop} {trip : List Nat}
    {duration : Duration} {next : Work α} (all : w.plan.AllInTrips splits jobs bases)
    (places : Places p settings r placed trip b rest location duration w next) :
    next.plan.AllInTrips splits jobs bases := by
  rcases places.plan_eq with ⟨plan, put, refreshed⟩
  exact (all.placeBase places.visits (by simp) put).refreshRoute refreshed

theorem Drops.inTrips {r b : Nat} {placed rest : List Stop} {trip : List Nat} {next : Work α}
    (tail : openJobs placed = []) (all : w.plan.AllInTrips splits jobs bases)
    (drops : Drops p r placed trip b rest w next) : next.plan.AllInTrips splits jobs bases := by
  have own := (all.routes r _ drops.visits).drop tail
  exact all.changed (drops.changesAt all.conserved) (drops.conserves all.conserved)
    drops.visitsNow (own.congr fun _ => drops.locationOf_eq all.conserved)

theorem placeRoute_inTrips {r : Nat} (all : w.plan.AllInTrips splits jobs bases) :
    Ends (Work.placeRoute p settings r) (fun _ next => next.plan.AllInTrips splits jobs bases)
      (fun _ next => next.plan.AllInTrips splits jobs bases) w := by
  refine Work.placeRoute_ends (fun _ _ => all) fun plan stops repaired found => ?_
  refine (Work.placeBases_ends
    (fun placed _ _ w => openJobs placed = [] ∧ w.plan.AllInTrips splits jobs bases)
    (E := fun _ w => w.plan.AllInTrips splits jobs bases) (fun _ _ _ _ _ kept => kept)
    (fun placed trip b rest w next _ _ kept places => ⟨?_, places.inTrips kept.2⟩)
    (fun _ _ _ _ _ _ kept drops => ⟨kept.1, drops.inTrips kept.1 kept.2⟩)
    (fun _ _ _ _ _ _ kept _ _ => kept.2)
    (fun _ _ b _ _ _ _ _ _ kept visits _ put _ => kept.2.placeBase visits (by simp) put)
    ⟨rfl, all.repairRoute repaired⟩ (Work.visiting_start found)).mono (fun _ _ => ?_)
    fun _ _ failed => failed
  · rw [openJobs_append, tripsOf_lead]
    rfl
  · rintro ⟨_, _, kept, _⟩
    exact kept.2

theorem placeAll_inTrips (all : w.plan.AllInTrips splits jobs bases) :
    Ends (Work.placeAll p settings) (fun _ next => next.plan.AllInTrips splits jobs bases)
      (fun _ next => next.plan.AllInTrips splits jobs bases) w := by
  simp only [Work.placeAll, ends_bind, ends_modify, ends_get]
  exact Work.placeRoutes_ends (fun _ w => w.plan.AllInTrips splits jobs bases)
    (fun _ _ _ _ _ kept => placeRoute_inTrips kept) all

theorem insertJobs_inTrips (given : List Nat) (all : f.work.plan.AllInTrips splits jobs bases) :
    Ends (Fill.insertJobs p settings given) (fun _ g => g.work.plan.AllInTrips splits jobs bases)
      (fun _ g => g.work.plan.AllInTrips splits jobs bases) f :=
  Fill.insertJobs_ends (fun w => w.plan.AllInTrips splits jobs bases)
    (E := fun _ w => w.plan.AllInTrips splits jobs bases)
    (fun given => insertions_inTrips given all) fun _ kept => placeAll_inTrips kept

end

/-! ### Histories -/

/-- Every operation but the bare removal of a job leaves the routes in trips, however it ends. -/
theorem Operation.inTrips (p : Problem α) {operation : Operation α}
    (repaired : ∀ job, operation ≠ .removeJob job)
    (divides : ∀ settings r, operation = .insertBase settings r → splits) {plan : Plan α}
    (all : plan.AllInTrips splits jobs bases) :
    Ends (operation.perform p) (fun _ => Plan.AllInTrips splits jobs bases)
      (fun _ => Plan.AllInTrips splits jobs bases) plan := by
  cases operation with
  | insertJobs settings given => exact ends_onPlan.mpr (insertJobs_inTrips given all)
  | recreate settings =>
      refine ends_onPlan.mpr (Fill.recreate_ends
        (Q := fun w => w.plan.AllInTrips splits jobs bases)
        (E := fun _ w => w.plan.AllInTrips splits jobs bases) (fun _ => all) fun given => ?_)
      exact insertJobs_inTrips given all
  | insertBase settings r =>
      exact ends_onPlan.mpr (insertBase_inTrips (divides settings r rfl) r all)
  | placeAll settings volumes =>
      simp only [perform, ends_within, ends_map]
      exact placeAll_inTrips all
  | ruin given =>
      simp only [perform, ends_edit, bind_eq_ok]
      refine ⟨fun after done => ?_, fun _ _ => all⟩
      rcases done with ⟨⟨removed, last⟩, ruined, equal⟩
      cases equal
      exact all.ruin ruined
  | removeJob job => exact absurd rfl (repaired job)
  | clearIdleBases r =>
      simp only [perform, ends_edit, bind_eq_ok]
      refine ⟨fun after done => ?_, fun _ _ => all⟩
      rcases done with ⟨⟨count, last⟩, cleared, equal⟩
      cases equal
      exact all.clearIdleBases cleared
  | resetRoute r =>
      simp only [perform, ends_edit]
      exact ⟨fun _ => all.resetRoute, fun _ _ => all⟩
  | refreshBases =>
      simp only [perform, ends_edit]
      exact ⟨fun _ => all.refreshBases, fun _ _ => all⟩
  | refreshRoute r =>
      simp only [perform, ends_edit]
      exact ⟨fun _ => all.refreshRoute, fun _ _ => all⟩

/-- Stops that begin with a job, with no two bases in a row and no base without a location, so that
every closed trip serves a job.  Unless trips may be split, the stops are trips and nothing else,
and the last one is a base. -/
structure WellShaped (splits : Prop) (pool : BasePool) (stops : List Stop) : Prop where
  starts : ∀ b, stops.head? ≠ some (.base b)
  apart : ∀ before b c after, stops ≠ before ++ .base b :: .base c :: after
  located : ∀ b, .base b ∈ stops → ∃ location, pool.locationOf b = some location
  serves : ∀ t ∈ closedTrips stops, t.jobs ≠ []
  whole : ¬ splits → stops = (closedTrips stops).flatMap Trip.stops
  ends : ¬ splits → stops ≠ [] → ∃ b, stops.getLast? = some (.base b)

theorem InTrips.wellShaped {pool : BasePool} {stops : List Stop}
    (inTrips : InTrips splits pool stops) : WellShaped splits pool stops := by
  -- A base closes jobs wherever it stands.
  have serving : ∀ before b after, stops = before ++ .base b :: after → openJobs before ≠ [] := by
    rintro before b after rfl
    apply inTrips.serves ⟨openJobs before, b⟩
    rw [closedTrips_append]
    exact List.mem_append_right _ List.mem_cons_self
  have whole : ¬ splits → stops = (closedTrips stops).flatMap Trip.stops := by
    intro unsplit
    have parts := stops_eq_trips stops
    rwa [inTrips.closed unsplit, List.map_nil, List.append_nil] at parts
  refine ⟨fun b first => ?_, fun before b c after split => ?_, inTrips.located, inTrips.serves,
    whole, fun unsplit visited => ?_⟩
  · obtain ⟨rest, split⟩ := List.head?_eq_some_iff.mp first
    exact serving [] b rest split rfl
  · apply serving (before ++ [.base b]) c after (by simp [split])
    rw [openJobs_append]
    rfl
  · rcases List.eq_nil_or_concat (closedTrips stops) with none | ⟨trips, t, split⟩
    · rw [whole unsplit, none] at visited
      exact absurd rfl visited
    · refine ⟨t.base, ?_⟩
      rw [whole unsplit, split]
      simp [Trip.stops]

/-- From the beginning on, in whatever order passes, bases, removals and resets come and however
they end, every route is well shaped: after each operation, and after each job of a further pass. -/
theorem session_wellShaped (p : Problem α) {operations : List (Operation α)}
    (repaired : ∀ job, Operation.removeJob job ∉ operations) :
    ∃ start, Plan.empty p = .ok start ∧
      let splits := ∃ settings r, Operation.insertBase settings r ∈ operations
      let plan := stateAfter (session p operations start)
      (∀ r stops, plan.Visits r stops → WellShaped splits plan.pool stops) ∧
      ∀ settings given, let next := (stateAfter
          (Fill.insertions p settings given (Fill.start p plan))).work.plan
        ∀ r stops, next.Visits r stops → WellShaped splits next.pool stops := by
  obtain ⟨routes, begins, _⟩ := withPool_answers p (.forJobs p.destinations.size)
  refine ⟨_, begins, ?_⟩
  intro splits plan
  have all : plan.AllInTrips splits p.destinations.size (max p.destinations.size 1) := by
    refine session_leaves (Plan.AllInTrips splits _ _) (fun operation member before kept => ?_)
      ⟨withPool_conserves begins, fun r stops visits => ?_⟩
    · apply operation.inTrips p (fun job same => ?_) (fun settings r same => ?_) kept
      · exact repaired job (same ▸ member)
      · exact ⟨settings, r, same ▸ member⟩
    · rw [visits_empty begins visits]
      exact .nil splits _
  refine ⟨fun r stops visits => (all.routes r stops visits).wellShaped, ?_⟩
  intro settings given next r stops visits
  have later : next.AllInTrips splits p.destinations.size (max p.destinations.size 1) :=
    ends_iff_stateAfter.mp (insertions_inTrips (f := Fill.start p plan) given all)
  exact (later.routes r stops visits).wellShaped

/-- A vehicle that serves both jobs on one trip, which a base splits in the end. -/
theorem session_wellShaped_twoJobs :
    let p : Problem Rat :=
      { twoJobs with vehicles := #[⟨"v", 0, none, ⟨[20]⟩, none, some 0, true, none, none⟩] }
    let settings := Settings.forProblem p .standard
    let operations : List (Operation Rat) :=
      [.recreate settings, .ruin [1], .resetRoute 0, .recreate settings, .insertBase settings 0]
    (∀ job, Operation.removeJob job ∉ operations) ∧
      ∃ start, Plan.empty p = .ok start ∧
        let plan := stateAfter (session p operations start)
        plan.itineraries = [(0, [.destination 0, .base 1, .destination 1, .base 0])] ∧
        ∀ r stops, plan.Visits r stops → WellShaped True plan.pool stops := by
  intro p settings operations
  have repaired : ∀ job, Operation.removeJob job ∉ operations := by simp [operations]
  have run : (Plan.empty p).map (fun start =>
      (stateAfter (session p operations start)).itineraries) =
        .ok [(0, [.destination 0, .base 1, .destination 1, .base 0])] := by decide +kernel
  obtain ⟨start, begins, shaped, _⟩ := session_wellShaped p repaired
  rw [begins] at run
  refine ⟨repaired, start, begins, Except.ok.inj run, fun r stops visits => ?_⟩
  have split : (∃ settings r, Operation.insertBase settings r ∈ operations) = True :=
    eq_true ⟨settings, 0, by simp [operations]⟩
  exact split ▸ shaped r stops visits

end Haulage

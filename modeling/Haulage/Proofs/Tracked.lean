/-
Module: Haulage.Proofs.Tracked
Purpose: Where bases are put.  A base is put only where room was asked for, so it lies at a location
  whose volume is tracked, whatever locations are offered, and such a location is one of the problem.
Main exports: Problem.Tracks, Problem.Tracks.lt_of_linked, Work.Tracks, Operation.Limited,
  Operation.tracks, session_tracks, reach_tracks
-/
import Haulage.Proofs.Fixpoint
import Haulage.Proofs.InRange

namespace Haulage

variable {α : Type} [Quantity α]

open Attempt Plan

/-- Whether the volume at a location is tracked when a pass begins. -/
def Problem.Tracks (p : Problem α) (location : Nat) : Prop :=
  ((Volumes.ofSites p.sites).tracked? location).isSome = true

omit [Quantity α] in
/-- Volumes are tracked up to the highest unload site, and no further. -/
theorem Problem.Tracks.lt_of_linked {p : Problem α} {location : Nat} (linked : p.Linked)
    (tracks : p.Tracks location) : location < p.points.size := by
  rw [Problem.Tracks, Volumes.tracked?_ofSites] at tracks
  split at tracks
  · rename_i spans
    obtain ⟨_, high, member, below⟩ := spans
    exact Nat.lt_of_le_of_lt below (linked.sites _ (List.mem_map_of_mem member))
  · cases tracks

/-- Bases lie where volumes are tracked, and the volumes of the work under way track just that. -/
structure Work.Tracks (p : Problem α) (w : Work α) : Prop where
  pool : w.plan.pool.Lies p.Tracks
  volumes : w.volumes.clear = (Volumes.ofSites p.sites).clear

section

variable {p : Problem α} {w next : Work α} {plan after : Plan α} {location : Nat} {load : Load α}

/-- Where room was asked for, volumes are tracked. -/
theorem Problem.tracks_of_isLoadable {volumes : Volumes α}
    (limits : volumes.clear = (Volumes.ofSites p.sites).clear)
    (takes : volumes.isLoadable location load = .ok true) : p.Tracks location := by
  obtain ⟨e, found, _⟩ := Volumes.isLoadable_eq_true.mp takes
  rw [Problem.Tracks, ← Volumes.isSome_tracked?_of_clear limits, found]
  rfl

theorem Work.Tracks.of_isLoadable (tracks : w.Tracks p)
    (takes : w.volumes.isLoadable location load = .ok true) : p.Tracks location :=
  p.tracks_of_isLoadable tracks.volumes takes

/-! ### Edits -/

omit [Quantity α] in
theorem lies_refreshBases {P : Nat → Prop} (lies : plan.pool.Lies P)
    (done : plan.refreshBases = .ok after) : after.pool.Lies P := by
  simp only [Plan.refreshBases, bind_eq_ok] at done
  rcases done with ⟨pool, refreshed, equal⟩
  cases equal
  exact lies.refresh refreshed

omit [Quantity α] in
theorem lies_clearIdleBases {P : Nat → Prop} {r count : Nat} (lies : plan.pool.Lies P)
    (done : plan.clearIdleBases r = .ok (count, after)) : after.pool.Lies P := by
  obtain ⟨route, _, _, handed⟩ := clearIdleBases_eq_ok.mp done
  exact lies_handBackAll handed lies

theorem lies_repairRoute {P : Nat → Prop} {r : Nat} (lies : plan.pool.Lies P)
    (done : plan.repairRoute p r = .ok after) : after.pool.Lies P := by
  simp only [Plan.repairRoute, bind_eq_ok] at done
  rcases done with ⟨⟨count, cleared⟩, tidied, refreshed⟩
  rw [(refreshRoute_keeps refreshed).2.1]
  exact lies_clearIdleBases lies tidied

omit [Quantity α] in
theorem lies_removeJob {P : Nat → Prop} {job : Nat} {from? : Option Nat} (lies : plan.pool.Lies P)
    (done : plan.removeJob job = .ok (from?, after)) : after.pool.Lies P := by
  rcases removeJob_changes done with ⟨_, rfl, _⟩ | ⟨_, _, _, _, _, _, _, pool, _⟩
  · exact lies
  · exact pool ▸ lies

theorem lies_resetRoute {P : Nat → Prop} {r : Nat} (lies : plan.pool.Lies P)
    (done : plan.resetRoute p r = .ok after) : after.pool.Lies P := by
  obtain ⟨_, emptied, _, _, handed, _, _, rfl⟩ := resetRoute_eq_ok done
  have kept : emptied.pool.Lies P := lies_handBackAll handed lies
  exact kept

theorem lies_ruin {P : Nat → Prop} {given removed : List Nat} (lies : plan.pool.Lies P)
    (done : plan.ruin p given = .ok (removed, after)) : after.pool.Lies P := by
  simp only [ruin, bind_eq_ok] at done
  rcases done with ⟨⟨pairs, shorter⟩, taken, last, repaired, equal⟩
  cases equal
  have kept : shorter.pool.Lies P :=
    removeJobs_keeps (fun q : Plan α => q.pool.Lies P) (fun _ _ _ _ => lies_removeJob) lies taken
  exact foldlM_keeps (fun q : Plan α => q.pool.Lies P)
    (fun _ _ _ _ holds step => lies_repairRoute holds step) kept repaired

omit [Quantity α] in
/-- Changes put bases only where they say. -/
theorem lies_makeChanges {P : Nat → Prop} {changes : List Change} (lies : plan.pool.Lies P)
    (places : ∀ b location duration, .place b location duration ∈ changes → P location) :
    Ends (makeChanges changes) (fun _ next => next.pool.Lies P) (fun _ next => next.pool.Lies P)
      plan := by
  induction changes generalizing plan with
  | nil => exact lies
  | cons change rest inductionHypothesis =>
      refine (ends_makeChanges_cons change rest).mpr ⟨fun next done => ?_, fun _ _ => lies⟩
      refine inductionHypothesis ?_ fun b location duration member =>
        places b location duration (List.mem_cons_of_mem change member)
      cases change with
      | insert r position stop =>
          have inserted : plan.insertStop r position stop = .ok next := done
          cases stop with
          | destination job =>
              obtain ⟨_, _, _, _, rfl⟩ := insertStop_destination.mp inserted
              exact lies
          | base b =>
              obtain ⟨_, _, _, _, rfl⟩ := insertStop_base.mp inserted
              exact lies.without b
      | place b location duration =>
          have put : plan.placeBase b location duration = .ok next := done
          obtain ⟨_, rfl⟩ := placeBase_eq_ok.mp put
          exact lies.placed (places b location duration List.mem_cons_self) duration
      | switch r vehicle departure =>
          simp only [Proposal.applyChange, switchVehicle, bind_eq_ok] at done
          rcases done with ⟨_, _, equal⟩
          cases equal
          exact lies

/-! ### Taking up an offer -/

/-- A proposal puts bases only where volumes are tracked. -/
def Proposal.PlacesTracked (p : Problem α) (q : Proposal) : Prop :=
  ∀ b location duration, .place b location duration ∈ q.changes → p.Tracks location

theorem Serves.placesTracked {provider : LocationProvider α} {job : Nat} {q : Proposal}
    (tracks : w.Tracks p) (serves : Serves p w.plan w.volumes provider job q) :
    q.PlacesTracked p := by
  rcases serves with ⟨_, _, _, _, _, _, _, ⟨before, after, joins⟩ | ⟨b, there, duration, opens⟩⟩
  · intro b place duration member
    simp [joins.changes_eq] at member
  · intro c place time member
    simp only [opens.changes_eq, List.mem_cons, Change.place.injEq, reduceCtorEq, List.not_mem_nil,
      or_false, false_or] at member
    obtain ⟨_, rfl, _⟩ := member
    exact tracks.of_isLoadable opens.loadable

theorem SplitsTrip.placesTracked {provider : LocationProvider α} {route : Route} {b job there : Nat}
    {duration : Duration} {front back : List Stop} {q : Proposal} (tracks : w.Tracks p)
    (splits : SplitsTrip w.plan w.volumes provider route b job there duration front back load q) :
    q.PlacesTracked p := by
  intro c place time member
  simp only [splits.changes_eq, List.mem_cons, Change.place.injEq, reduceCtorEq, List.not_mem_nil,
    or_false, false_or] at member
  obtain ⟨_, rfl, _⟩ := member
  exact tracks.of_isLoadable splits.loadable

theorem commit_tracks {q : Proposal} (tracks : w.Tracks p) (places : q.PlacesTracked p) :
    Ends (Fill.commit p q) (fun _ next => next.Tracks p) (fun _ next => next.Tracks p) w := by
  refine Work.commit_ends (fun _ _ => tracks)
    ((lies_makeChanges tracks.pool places).mono (fun _ plan lies => ?_) fun _ plan lies => ?_)
  · refine ⟨fun _ _ => ⟨lies, tracks.volumes⟩, fun fresh refreshed => ?_⟩
    have pool : fresh.pool = plan.pool := (refreshRoute_keeps refreshed).2.1
    refine ((Work.recount_plan p q w.volumes { w with plan := fresh }).and
      (Work.recount_keepsLimits p q { w with plan := fresh })).mono
        (fun _ next kept => ?_) fun _ next kept => ?_
    · obtain ⟨same, limits⟩ := kept
      exact ⟨by rw [same]; exact pool ▸ lies, limits.trans tracks.volumes⟩
    · obtain ⟨same, limits⟩ := kept
      exact ⟨by rw [same]; exact pool ▸ lies, limits.trans tracks.volumes⟩
  · exact ⟨lies, tracks.volumes⟩

end

/-! ### Passes -/

section

variable {p : Problem α} {settings : Settings α} {w : Work α} {r : Nat} {plan : Plan α}

theorem rebuild_tracks {fresh : Plan α} {volumes : Volumes α} (lies : fresh.pool.Lies p.Tracks)
    (limits : volumes.clear = (Volumes.ofSites p.sites).clear) :
    Ends (Volumes.rebuild fresh) (fun _ counted => Work.Tracks p ⟨fresh, counted⟩)
      (fun _ counted => Work.Tracks p ⟨fresh, counted⟩) volumes := by
  refine (Volumes.rebuild_keepsLimits fresh volumes).mono (fun _ _ same => ?_) fun _ _ same => ?_
  · exact ⟨lies, same.trans limits⟩
  · exact ⟨lies, same.trans limits⟩

theorem insertions_tracks (given : List Nat) (lies : plan.pool.Lies p.Tracks) :
    Ends (Fill.insertions p settings given) (fun _ g => g.work.Tracks p)
      (fun _ g => g.work.Tracks p) (Fill.start p plan) := by
  refine Fill.insertions_ends (Work.Tracks p) (E := fun _ => Work.Tracks p) ?_ fun job g tracks => ?_
  · refine Fill.prepare_ends (E := fun _ => Work.Tracks p) (fun _ _ => ⟨lies, rfl⟩)
      (fun pooled _ pool _ => ⟨lies_refreshBases lies pool, rfl⟩) fun pooled fresh pool done => ?_
    have kept : fresh.pool.Lies p.Tracks := (refreshRoutes_keeps done).2.1 ▸ lies_refreshBases lies pool
    exact rebuild_tracks kept rfl
  · refine Fill.insertJob_ends (Work.Tracks p) (E := fun _ => Work.Tracks p) tracks
      (fun _ _ now _ _ => ⟨now.pool, now.volumes⟩) (fun _ _ now => now) fun w q now serves => ?_
    exact commit_tracks now (serves.placesTracked now)

/-- A refusal leaves bases where volumes are tracked. -/
def LeavesTracked (p : Problem α) (e : Failure) (w : Work α) : Prop :=
  ∀ reason, e = .refused reason → w.Tracks p

theorem placeRoute_tracks (tracks : w.Tracks p) :
    Ends (Work.placeRoute p settings r) (fun _ next => next.Tracks p) (LeavesTracked p) w := by
  refine Work.placeRoute_ends (fun _ _ _ _ => tracks) fun plan stops repaired found => ?_
  have begins : Work.Tracks p ⟨plan, w.volumes⟩ :=
    ⟨lies_repairRoute tracks.pool repaired, tracks.volumes⟩
  refine (Work.placeBases_ends (fun _ _ _ w => w.Tracks p) (E := LeavesTracked p)
    (fun _ _ _ _ _ kept => kept) (fun _ _ _ _ w next location _ kept places => ?_)
    (fun _ _ _ _ w next kept drops => ?_) (fun _ _ _ _ _ _ kept _ _ _ _ => kept)
    (fun _ _ _ _ _ put _ _ e _ _ _ _ failed reason refused => ?_) begins
    (w := ⟨plan, w.volumes⟩) (Work.visiting_start found)).mono (fun _ next kept => ?_)
      fun _ _ left => left
  · obtain ⟨plan, put, refreshed⟩ := places.plan_eq
    obtain ⟨_, rfl⟩ := placeBase_eq_ok.mp put
    refine ⟨?_, (Volumes.clear_add places.volumes_eq).trans kept.volumes⟩
    rw [(refreshRoute_keeps refreshed).2.1]
    exact kept.pool.placed (kept.of_isLoadable places.loadable) _
  · obtain ⟨route, plan, _, _, handed, refreshed⟩ := drops.plan_eq
    refine ⟨?_, drops.volumes_eq ▸ kept.volumes⟩
    rw [(refreshRoute_keeps refreshed).2.1]
    exact lies_handBackAll handed kept.pool
  · exact absurd refused ((NeverRefuses.refreshRoute p put r).isFault failed reason)
  · rcases kept with ⟨_, _, kept, _⟩
    exact kept

theorem placeAll_tracks (tracks : w.Tracks p) :
    Ends (Work.placeAll p settings) (fun _ next => next.Tracks p) (LeavesTracked p) w := by
  simp only [Work.placeAll, ends_bind, ends_modify, ends_get]
  exact Work.placeRoutes_ends (fun _ w => w.Tracks p)
    (fun _ _ _ _ _ kept => placeRoute_tracks kept)
    ⟨tracks.pool, (Volumes.clear_clear w.volumes).trans tracks.volumes⟩

theorem insertJobs_tracks (given : List Nat) (lies : plan.pool.Lies p.Tracks) :
    Ends (Fill.insertJobs p settings given) (fun _ g => g.work.Tracks p)
      (fun e g => LeavesTracked p e g.work) (Fill.start p plan) :=
  Fill.insertJobs_ends (Work.Tracks p) (fun given => (insertions_tracks given lies).mono
    (fun _ _ now => now) fun _ _ now _ _ => now) fun _ now => placeAll_tracks now

theorem insertBase_tracks (lies : plan.pool.Lies p.Tracks) :
    Ends (Fill.insertBase p settings r) (fun _ g => g.work.Tracks p)
      (fun _ g => g.work.Tracks p) (Fill.start p plan) := by
  refine Fill.insertBase_ends (E := fun _ => Work.Tracks p) (fun _ _ => ⟨lies, rfl⟩)
    (fun pooled _ pool _ => ⟨lies_refreshBases lies pool, rfl⟩)
    (fun pooled fresh pool done => ?_) (fun _ _ now => now)
    fun w q _ _ _ _ _ _ _ _ now _ _ _ splits => commit_tracks now (splits.placesTracked now)
  have same : fresh.pool = pooled.pool := (refreshRoute_keeps done).2.1
  exact rebuild_tracks (same ▸ lies_refreshBases lies pool) rfl

/-! ### Histories -/

/-- If an operation brings volumes, they have the limits of the problem. -/
def Operation.Limited (p : Problem α) : Operation α → Prop
  | .placeAll _ volumes => volumes.clear = (Volumes.ofSites p.sites).clear
  | _ => True

omit [Quantity α] in
theorem Operation.Refreshes.limited {operation : Operation α} (refreshes : operation.Refreshes) :
    operation.Limited p := by
  cases operation with
  | placeAll settings volumes => exact refreshes.elim
  | insertJobs | recreate | insertBase | ruin | removeJob | clearIdleBases | resetRoute
    | refreshBases | refreshRoute => trivial

/-- Whatever is done with a plan, bases are put only where volumes are tracked. -/
theorem Operation.tracks {operation : Operation α} (limited : operation.Limited p)
    (lies : plan.pool.Lies p.Tracks) :
    Ends (operation.perform p) (fun _ after => after.pool.Lies p.Tracks)
      (fun e after => ∀ reason, e = .refused reason → after.pool.Lies p.Tracks) plan := by
  cases operation with
  | insertJobs settings given =>
      apply ends_onPlan.mpr
      exact (insertJobs_tracks given lies).mono (fun _ _ now => now.pool)
        fun _ _ left reason refused => (left reason refused).pool
  | recreate settings =>
      apply ends_onPlan.mpr
      refine (Fill.recreate_ends (Q := Work.Tracks p) (E := LeavesTracked p)
        (fun _ _ _ => ⟨lies, rfl⟩) fun given => insertJobs_tracks given lies).mono
          (fun _ _ now => now.pool) fun _ _ left reason refused => (left reason refused).pool
  | insertBase settings r =>
      apply ends_onPlan.mpr
      exact (insertBase_tracks lies).mono (fun _ _ now => now.pool) fun _ _ now _ _ => now.pool
  | ruin given =>
      simp only [perform, ends_edit, bind_eq_ok]
      refine ⟨fun after done => ?_, fun _ _ _ _ => lies⟩
      rcases done with ⟨⟨removed, last⟩, ruined, equal⟩
      cases equal
      exact lies_ruin lies ruined
  | refreshBases =>
      simp only [perform, ends_edit]
      exact ⟨fun after done => lies_refreshBases lies done, fun _ _ _ _ => lies⟩
  | refreshRoute r =>
      simp only [perform, ends_edit]
      exact ⟨fun after done => (refreshRoute_keeps done).2.1 ▸ lies, fun _ _ _ _ => lies⟩
  | placeAll settings volumes =>
      have limits : volumes.clear = (Volumes.ofSites p.sites).clear := limited
      simp only [perform, ends_within, ends_map]
      exact (placeAll_tracks (w := ⟨plan, volumes⟩) ⟨lies, limits⟩).mono (fun _ _ now => now.pool)
        fun _ _ left reason refused => (left reason refused).pool
  | removeJob job =>
      simp only [perform, ends_edit, bind_eq_ok]
      refine ⟨fun after done => ?_, fun _ _ _ _ => lies⟩
      rcases done with ⟨⟨from?, last⟩, removed, equal⟩
      cases equal
      exact lies_removeJob lies removed
  | clearIdleBases r =>
      simp only [perform, ends_edit, bind_eq_ok]
      refine ⟨fun after done => ?_, fun _ _ _ _ => lies⟩
      rcases done with ⟨⟨count, last⟩, cleared, equal⟩
      cases equal
      exact lies_clearIdleBases lies cleared
  | resetRoute r =>
      simp only [perform, ends_edit]
      exact ⟨fun after done => lies_resetRoute lies done, fun _ _ _ _ => lies⟩

omit [Quantity α] in
theorem lies_withPool {start : Plan α} {size : Nat}
    (begins : Plan.withPool p (.ofSize size) = .ok start) (P : Nat → Prop) :
    start.pool.Lies P := by
  obtain ⟨routes, equal, _⟩ := withPool_answers p (.ofSize size)
  rw [equal] at begins
  cases begins
  exact BasePool.lies_ofSize P _

/-- Over a whole history bases are put only where volumes are tracked, whatever locations are
offered. -/
theorem session_tracks {operations : List (Operation α)} {start : Plan α}
    (limited : ∀ operation ∈ operations, operation.Limited p) (lies : start.pool.Lies p.Tracks)
    (reached : session p operations start = .ok () plan) : plan.pool.Lies p.Tracks := by
  have ends := session_ends (fun q : Plan α => q.pool.Lies p.Tracks) (E := fun _ _ => True)
    (fun operation member _ holds => (operation.tracks (limited operation member) holds).mono
      (fun _ _ kept => kept) fun _ _ kept => ⟨kept, fun _ _ => trivial⟩) lies
  rwa [Ends, reached] at ends

theorem reach_tracks {operations : List (Operation α)}
    (refreshes : ∀ operation ∈ operations, operation.Refreshes)
    (reached : Plan.reach p operations = .ok plan) : plan.pool.Lies p.Tracks := by
  obtain ⟨start, begins, done⟩ := Plan.reach_eq_ok.mp reached
  exact session_tracks (fun operation member => (refreshes operation member).limited)
    (lies_withPool begins _) done

end

end Haulage

/-
Module: Haulage.Proofs.Ascending
Purpose: The unassigned jobs stay in order.  A job that is handed back goes to its place among them,
  so a job that was taken out and is handed back leaves them as they were.
Main exports: addJob_erase, Plan.Ascending, Operation.ascending, reach_ascending
-/
import Haulage.Proofs.ShapedSessions

namespace Haulage

variable {α : Type} [Quantity α]

open Attempt Plan

/-! ### Lists in order -/

theorem pairwise_addJob {job : Nat} {jobs : List Nat} (ascending : jobs.Pairwise (· < ·)) :
    (addJob job jobs).Pairwise (· < ·) := by
  induction jobs with
  | nil => exact List.pairwise_singleton _ job
  | cons other rest inductionHypothesis =>
      obtain ⟨above, later⟩ := List.pairwise_cons.mp ascending
      rw [addJob]
      split_ifs with lower same
      · refine List.pairwise_cons.mpr ⟨fun next member => ?_, ascending⟩
        rcases List.mem_cons.mp member with rfl | behind
        · exact lower
        · exact lower.trans (above next behind)
      · exact ascending
      · refine List.pairwise_cons.mpr ⟨fun next member => ?_, inductionHypothesis later⟩
        rcases mem_addJob.mp member with rfl | behind
        · omega
        · exact above next behind

/-- A job that is taken out and handed back is where it was. -/
theorem addJob_erase {job : Nat} {jobs : List Nat} (ascending : jobs.Pairwise (· < ·))
    (member : job ∈ jobs) : addJob job (jobs.erase job) = jobs := by
  induction jobs with
  | nil => cases member
  | cons other rest inductionHypothesis =>
      obtain ⟨above, later⟩ := List.pairwise_cons.mp ascending
      rcases List.mem_cons.mp member with rfl | behind
      · rw [List.erase_cons_head]
        cases rest with
        | nil => rfl
        | cons next rest => rw [addJob, if_pos (above next List.mem_cons_self)]
      · have lower := above job behind
        have apart : other ≠ job := Nat.ne_of_lt lower
        rw [List.erase_cons_tail (by simpa using apart), addJob, if_neg (by omega),
          if_neg apart.symm, inductionHypothesis later behind]

/-! ### Edits -/

/-- The unassigned jobs are in order, and none is listed twice. -/
def Plan.Ascending (plan : Plan α) : Prop := plan.unassigned.Pairwise (· < ·)

namespace Plan.Ascending

variable {p : Problem α} {plan after : Plan α} {r : Nat}

omit [Quantity α] in
theorem setRoute (ascending : plan.Ascending) (r : Nat) (new : Route) :
    (plan.setRoute r new).Ascending := ascending

omit [Quantity α] in
theorem handBack {stop : Stop} (ascending : plan.Ascending)
    (done : plan.handBack stop = .ok after) : after.Ascending := by
  cases stop with
  | destination job =>
      cases done
      exact pairwise_addJob ascending
  | base b =>
      simp only [Plan.handBack, bind_eq_ok] at done
      rcases done with ⟨_, _, equal⟩
      cases equal
      exact ascending

omit [Quantity α] in
theorem handBackAll {stops : List Stop} (ascending : plan.Ascending)
    (done : stops.foldlM Plan.handBack plan = .ok after) : after.Ascending :=
  foldlM_keeps Ascending (fun _ _ _ _ => handBack) ascending done

omit [Quantity α] in
theorem removeJob {job : Nat} {from? : Option Nat} (ascending : plan.Ascending)
    (done : plan.removeJob job = .ok (from?, after)) : after.Ascending := by
  rcases removeJob_eq_ok.mp done with ⟨_, _, rfl⟩ | ⟨r, _, _, _, _, _, _, removed, _⟩
  · exact ascending
  · obtain ⟨route, _, _, handed⟩ := removeStop_eq_ok.mp removed
    exact (ascending.setRoute r _).handBack handed

omit [Quantity α] in
theorem clearIdleBases {count : Nat} (ascending : plan.Ascending)
    (done : plan.clearIdleBases r = .ok (count, after)) : after.Ascending := by
  obtain ⟨route, _, _, handed⟩ := clearIdleBases_eq_ok.mp done
  exact (ascending.setRoute r _).handBackAll handed

theorem refreshRoute (ascending : plan.Ascending) (done : plan.refreshRoute p r = .ok after) :
    after.Ascending := by
  rw [Ascending, (refreshRoute_keeps done).2.2]
  exact ascending

theorem refreshRoutes (ascending : plan.Ascending) (done : plan.refreshRoutes p = .ok after) :
    after.Ascending := foldlM_keeps Ascending (fun _ _ _ _ => refreshRoute) ascending done

omit [Quantity α] in
theorem refreshBases (ascending : plan.Ascending) (done : plan.refreshBases = .ok after) :
    after.Ascending := by
  simp only [Plan.refreshBases, bind_eq_ok] at done
  rcases done with ⟨_, _, equal⟩
  cases equal
  exact ascending

theorem repairRoute (ascending : plan.Ascending) (done : plan.repairRoute p r = .ok after) :
    after.Ascending := by
  simp only [Plan.repairRoute, bind_eq_ok] at done
  rcases done with ⟨_, tidied, refreshed⟩
  exact (ascending.clearIdleBases tidied).refreshRoute refreshed

theorem ruin {given removed : List Nat} (ascending : plan.Ascending)
    (done : plan.ruin p given = .ok (removed, after)) : after.Ascending := by
  simp only [Plan.ruin, bind_eq_ok] at done
  rcases done with ⟨⟨pairs, shorter⟩, taken, last, repaired, equal⟩
  cases equal
  exact foldlM_keeps Ascending (fun _ _ _ _ => repairRoute)
    (removeJobs_keeps Ascending (fun _ _ _ _ => removeJob) ascending taken) repaired

theorem resetRoute (ascending : plan.Ascending) (done : plan.resetRoute p r = .ok after) :
    after.Ascending := by
  obtain ⟨_, emptied, _, _, handed, _, _, rfl⟩ := resetRoute_eq_ok done
  have kept : emptied.Ascending := ascending.handBackAll handed
  exact kept

omit [Quantity α] in
theorem placeBase {b location : Nat} {duration : Duration} (ascending : plan.Ascending)
    (done : plan.placeBase b location duration = .ok after) : after.Ascending := by
  obtain ⟨_, rfl⟩ := placeBase_eq_ok.mp done
  exact ascending

omit [Quantity α] in
/-- Whatever a change inserts, at most a job is taken out of the unassigned ones. -/
theorem applyChange {change : Change} (ascending : plan.Ascending)
    (done : Proposal.applyChange plan change = .ok after) : after.Ascending := by
  cases change with
  | insert r position stop =>
      have inserted : plan.insertStop r position stop = .ok after := done
      cases stop with
      | destination job =>
          obtain ⟨_, _, _, _, rfl⟩ := insertStop_destination.mp inserted
          exact ascending.sublist (List.erase_sublist ..)
      | base b =>
          obtain ⟨_, _, _, _, rfl⟩ := insertStop_base.mp inserted
          exact ascending
  | place b location duration =>
      have put : plan.placeBase b location duration = .ok after := done
      exact ascending.placeBase put
  | switch r vehicle departure =>
      simp only [Proposal.applyChange, switchVehicle, bind_eq_ok] at done
      rcases done with ⟨_, _, equal⟩
      cases equal
      exact ascending

omit [Quantity α] in
theorem makeChanges {changes : List Change} (ascending : plan.Ascending) :
    Ends (makeChanges changes) (fun _ => Ascending) (fun _ => Ascending) plan := by
  induction changes generalizing plan with
  | nil => exact ascending
  | cons change rest inductionHypothesis =>
      exact (ends_makeChanges_cons change rest).mpr ⟨fun next done =>
        inductionHypothesis (ascending.applyChange done), fun _ _ => ascending⟩

end Plan.Ascending

/-! ### Passes -/

section

variable {p : Problem α} {settings : Settings α} {f : Fill α} {w : Work α} {plan : Plan α}

theorem commit_ascending (q : Proposal) (ascending : w.plan.Ascending) :
    Ends (Fill.commit p q) (fun _ next => next.plan.Ascending)
      (fun _ next => next.plan.Ascending) w :=
  Work.commit_keeps Ascending ascending (fun _ _ => Ascending.refreshRoute) ascending.makeChanges

theorem insertions_ascending (given : List Nat) (ascending : f.work.plan.Ascending) :
    Ends (Fill.insertions p settings given) (fun _ g => g.work.plan.Ascending)
      (fun _ g => g.work.plan.Ascending) f := by
  refine Fill.insertions_ends (fun w => w.plan.Ascending) (E := fun _ w => w.plan.Ascending)
    (Fill.prepare_ends (J := fun w => w.plan.Ascending) (E := fun _ w => w.plan.Ascending)
      (fun _ _ => ascending) (fun _ _ pool _ => ascending.refreshBases pool)
      fun _ fresh pool refreshed => ?_) fun job g kept => ?_
  · have kept : fresh.Ascending := (ascending.refreshBases pool).refreshRoutes refreshed
    exact ends_of_forall (fun _ _ => kept) fun _ _ => kept
  · exact Fill.insertJob_ends (fun w => w.plan.Ascending) (E := fun _ w => w.plan.Ascending) kept
      (fun _ _ kept _ _ => kept) (fun _ _ kept => kept) fun _ q kept _ => commit_ascending q kept

theorem placeRoute_ascending {r : Nat} (ascending : w.plan.Ascending) :
    Ends (Work.placeRoute p settings r) (fun _ next => next.plan.Ascending)
      (fun _ next => next.plan.Ascending) w := by
  refine Work.placeRoute_ends (fun _ _ => ascending) fun plan stops repaired found => ?_
  refine (Work.placeBases_ends (fun _ _ _ w => w.plan.Ascending)
    (E := fun _ w => w.plan.Ascending) (fun _ _ _ _ _ kept => kept)
    (fun _ _ _ _ _ _ _ _ kept places => ?_) (fun _ _ _ _ _ _ kept drops => ?_)
    (fun _ _ _ _ _ _ kept _ _ => kept) (fun _ _ _ _ _ _ _ _ _ kept _ _ put _ => ?_)
    (ascending.repairRoute repaired) (Work.visiting_start found)).mono (fun _ _ => ?_)
    fun _ _ failed => failed
  · obtain ⟨_, put, refreshed⟩ := places.plan_eq
    exact (kept.placeBase put).refreshRoute refreshed
  · obtain ⟨_, _, _, _, handed, refreshed⟩ := drops.plan_eq
    exact ((kept.setRoute r _).handBackAll handed).refreshRoute refreshed
  · exact kept.placeBase put
  · rintro ⟨_, _, kept, _⟩
    exact kept

theorem placeAll_ascending (ascending : w.plan.Ascending) :
    Ends (Work.placeAll p settings) (fun _ next => next.plan.Ascending)
      (fun _ next => next.plan.Ascending) w := by
  simp only [Work.placeAll, ends_bind, ends_modify, ends_get]
  exact Work.placeRoutes_ends (fun _ w => w.plan.Ascending)
    (fun _ _ _ _ _ kept => placeRoute_ascending kept) ascending

theorem insertJobs_ascending (given : List Nat) (ascending : f.work.plan.Ascending) :
    Ends (Fill.insertJobs p settings given) (fun _ g => g.work.plan.Ascending)
      (fun _ g => g.work.plan.Ascending) f :=
  Fill.insertJobs_ends (fun w => w.plan.Ascending) (E := fun _ w => w.plan.Ascending)
    (fun given => insertions_ascending given ascending) fun _ kept => placeAll_ascending kept

theorem insertBase_ascending {r : Nat} (ascending : f.work.plan.Ascending) :
    Ends (Fill.insertBase p settings r) (fun _ g => g.work.plan.Ascending)
      (fun _ g => g.work.plan.Ascending) f := by
  refine Fill.insertBase_ends (J := fun w => w.plan.Ascending) (E := fun _ w => w.plan.Ascending)
    (fun _ _ => ascending) (fun _ _ pool _ => ascending.refreshBases pool)
    (fun _ fresh pool refreshed => ?_) (fun _ _ kept => kept)
    fun _ q _ _ _ _ _ _ _ _ kept _ _ _ _ => commit_ascending q kept
  have kept : fresh.Ascending := (ascending.refreshBases pool).refreshRoute refreshed
  exact ends_of_forall (fun _ _ => kept) fun _ _ => kept

/-! ### Histories -/

/-- Every operation leaves the unassigned jobs in order, however it ends. -/
theorem Operation.ascending (p : Problem α) (operation : Operation α)
    (ascending : plan.Ascending) :
    Ends (operation.perform p) (fun _ => Plan.Ascending) (fun _ => Plan.Ascending) plan := by
  cases operation with
  | insertJobs settings given => exact ends_onPlan.mpr (insertJobs_ascending given ascending)
  | recreate settings =>
      refine ends_onPlan.mpr (Fill.recreate_ends (Q := fun w => w.plan.Ascending)
        (E := fun _ w => w.plan.Ascending) (fun _ => ascending) fun given => ?_)
      exact insertJobs_ascending given ascending
  | insertBase settings r => exact ends_onPlan.mpr (insertBase_ascending ascending)
  | placeAll settings volumes =>
      simp only [perform, ends_within, ends_map]
      exact placeAll_ascending ascending
  | ruin given =>
      simp only [perform, ends_edit, bind_eq_ok]
      refine ⟨fun after done => ?_, fun _ _ => ascending⟩
      rcases done with ⟨⟨removed, last⟩, ruined, equal⟩
      cases equal
      exact ascending.ruin ruined
  | removeJob job =>
      simp only [perform, ends_edit, bind_eq_ok]
      refine ⟨fun after done => ?_, fun _ _ => ascending⟩
      rcases done with ⟨⟨from?, last⟩, removed, equal⟩
      cases equal
      exact ascending.removeJob removed
  | clearIdleBases r =>
      simp only [perform, ends_edit, bind_eq_ok]
      refine ⟨fun after done => ?_, fun _ _ => ascending⟩
      rcases done with ⟨⟨count, last⟩, cleared, equal⟩
      cases equal
      exact ascending.clearIdleBases cleared
  | resetRoute r =>
      simp only [perform, ends_edit]
      exact ⟨fun _ => ascending.resetRoute, fun _ _ => ascending⟩
  | refreshBases =>
      simp only [perform, ends_edit]
      exact ⟨fun _ => ascending.refreshBases, fun _ _ => ascending⟩
  | refreshRoute r =>
      simp only [perform, ends_edit]
      exact ⟨fun _ => ascending.refreshRoute, fun _ _ => ascending⟩

/-- Over a whole history the unassigned jobs stay in order. -/
theorem reach_ascending {operations : List (Operation α)}
    (reached : Plan.reach p operations = .ok plan) : plan.Ascending := by
  refine reach_keeps Plan.Ascending (fun operation _ _ holds =>
    (operation.ascending p holds).mono (fun _ _ kept => kept) fun _ _ kept _ _ => kept)
    (fun start begins => ?_) reached
  obtain ⟨routes, equal, _⟩ := withPool_answers p (.forJobs p.destinations.size)
  rw [Plan.empty, equal] at begins
  cases begins
  exact List.pairwise_lt_range

end

end Haulage

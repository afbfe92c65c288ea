/-
Module: Haulage.Proofs.Session
Purpose: Histories of a plan.  Passes, removals and edits come in any order and any number, and a
  refusal does not end the history.
Main exports: Operation, Operation.perform, session, Plan.reach, session_ends, reach_keeps, twoJobs
-/
import Haulage.Pass.Fill
import Haulage.Pass.Removal
import Haulage.Proofs.Attempt
import Haulage.Proofs.Loads

namespace Haulage

variable {α : Type} [Quantity α]

/-- An edit of a plan, which leaves the plan alone where it is not possible. -/
def Plan.edit (change : Plan α → Except Failure (Plan α)) : Attempt (Plan α) Unit := do
  set (← Attempt.ofResult (change (← get)))

/-- A pass that begins with a plan, and of which the plan remains. -/
def Fill.onPlan {β : Type} (p : Problem α) (pass : Attempt (Fill α) β) : Attempt (Plan α) Unit :=
  Attempt.within (Fill.start p) (fun _ f => f.work.plan) ((fun _ => ()) <$> pass)

/-- What can be done with a plan, with all that it goes by. -/
inductive Operation (α : Type) where
  | insertJobs (settings : Settings α) (jobs : List Nat)
  | recreate (settings : Settings α)
  | insertBase (settings : Settings α) (route : Nat)
  /-- Places all bases anew.  The volumes bring only their limits. -/
  | placeAll (settings : Settings α) (volumes : Volumes α)
  | ruin (jobs : List Nat)
  | removeJob (job : Nat)
  | clearIdleBases (route : Nat)
  | resetRoute (route : Nat)
  | refreshBases
  | refreshRoute (route : Nat)

/-- Carries out an operation. -/
def Operation.perform (p : Problem α) : Operation α → Attempt (Plan α) Unit
  | .insertJobs settings jobs => Fill.onPlan p (Fill.insertJobs p settings jobs)
  | .recreate settings => Fill.onPlan p (Fill.recreate p settings)
  | .insertBase settings route => Fill.onPlan p (Fill.insertBase p settings route)
  | .placeAll settings volumes =>
    Attempt.within (fun plan => ⟨plan, volumes⟩) (fun _ w => w.plan)
      ((fun _ => ()) <$> Work.placeAll p settings)
  | .ruin jobs => Plan.edit fun plan => do .ok (← plan.ruin p jobs).2
  | .removeJob job => Plan.edit fun plan => do .ok (← plan.removeJob job).2
  | .clearIdleBases route => Plan.edit fun plan => do .ok (← plan.clearIdleBases route).2
  | .resetRoute route => Plan.edit (·.resetRoute p route)
  | .refreshBases => Plan.edit (·.refreshBases)
  | .refreshRoute route => Plan.edit (·.refreshRoute p route)

/-- One operation after the other.  A refusal leaves a plan that can be worked on; a fault ends the
session. -/
def session (p : Problem α) : List (Operation α) → Attempt (Plan α) Unit
  | [] => pure ()
  | operation :: rest => fun plan =>
    match operation.perform p plan with
    | .ok _ after | .error (.refused _) after => session p rest after
    | .error (.fault f) after => .error (.fault f) after

/-- The plan that a history leads to, where no fault ends it. -/
def Plan.reach (p : Problem α) (operations : List (Operation α)) : Except Failure (Plan α) := do
  match session p operations (← Plan.empty p) with
  | .ok _ plan => .ok plan
  | .error e _ => .error e

open Attempt

theorem Plan.reach_eq_ok {p : Problem α} {operations : List (Operation α)} {plan : Plan α} :
    Plan.reach p operations = .ok plan ↔
      ∃ start, Plan.empty p = .ok start ∧ session p operations start = .ok () plan := by
  rw [reach, bind_eq_ok]
  refine exists_congr fun start => and_congr_right fun _ => ?_
  cases session p operations start with
  | ok answer after => simp
  | error e after => simp

omit [Quantity α] in
@[simp] theorem ends_edit {change : Plan α → Except Failure (Plan α)} {plan : Plan α}
    {Q : Unit → Plan α → Prop} {E : Failure → Plan α → Prop} :
    Ends (Plan.edit change) Q E plan ↔
      (∀ after, change plan = .ok after → Q () after) ∧ ∀ e, change plan = .error e → E e plan := by
  simp only [Plan.edit, ends_bind, ends_get, ends_ofResult, ends_set]

omit [Quantity α] in
@[simp] theorem ends_onPlan {β : Type} {p : Problem α} {pass : Attempt (Fill α) β} {plan : Plan α}
    {Q : Unit → Plan α → Prop} {E : Failure → Plan α → Prop} :
    Ends (Fill.onPlan p pass) Q E plan ↔
      Ends pass (fun _ f => Q () f.work.plan) (fun e f => E e f.work.plan) (Fill.start p plan) := by
  simp only [Fill.onPlan, ends_within, ends_map]

/-- What every operation keeps, answered or refused, a session keeps. -/
theorem session_ends {p : Problem α} (I : Plan α → Prop) {E : Failure → Plan α → Prop}
    {operations : List (Operation α)}
    (each : ∀ operation ∈ operations, ∀ plan, I plan → Ends (operation.perform p) (fun _ => I)
      (fun e after => (∀ reason, e = .refused reason → I after) ∧ ∀ f, e = .fault f → E e after)
      plan)
    {plan : Plan α} (start : I plan) : Ends (session p operations) (fun _ => I) E plan := by
  induction operations generalizing plan with
  | nil => exact start
  | cons operation rest inductionHypothesis =>
      have later : ∀ after, I after → Ends (session p rest) (fun _ => I) E after := fun after =>
        inductionHypothesis fun other member => each other (List.mem_cons_of_mem operation member)
      have here := each operation List.mem_cons_self plan start
      unfold Ends at here later ⊢
      unfold session
      cases result : operation.perform p plan with
      | ok answer after =>
          rw [result] at here
          exact later after here
      | error e after =>
          rw [result] at here
          cases e with
          | refused reason => exact later after (here.1 reason rfl)
          | fault f => exact here.2 f rfl

/-- What every operation keeps unless a fault ends it holds of the plan that a history leads to. -/
theorem reach_keeps {p : Problem α} (I : Plan α → Prop) {operations : List (Operation α)}
    (each : ∀ operation ∈ operations, ∀ plan, I plan → Ends (operation.perform p) (fun _ => I)
      (fun e after => ∀ reason, e = .refused reason → I after) plan)
    (empty : ∀ start, Plan.empty p = .ok start → I start) {plan : Plan α}
    (reached : Plan.reach p operations = .ok plan) : I plan := by
  obtain ⟨start, begins, done⟩ := Plan.reach_eq_ok.mp reached
  have ends := session_ends I (E := fun _ _ => True) (fun operation member before holds =>
    (each operation member before holds).mono (fun _ _ kept => kept)
      fun _ _ kept => ⟨kept, fun _ _ => trivial⟩) (empty start begins)
  rwa [Ends, done] at ends

/-- What every operation keeps however it ends, a session leaves behind however it ends. -/
theorem session_leaves {p : Problem α} (I : Plan α → Prop) {operations : List (Operation α)}
    (each : ∀ operation ∈ operations, ∀ plan, I plan →
      Ends (operation.perform p) (fun _ => I) (fun _ => I) plan)
    {plan : Plan α} (start : I plan) : I (stateAfter (session p operations plan)) := by
  apply ends_iff_stateAfter.mp
  refine session_ends I (fun operation member before holds => ?_) start
  exact (each operation member before holds).mono (fun _ _ after => after)
    fun _ _ after => ⟨fun _ _ => after, fun _ _ => after⟩

/-! ### A small problem -/

/-- Two jobs on the way from the depot to a site.  On its first trip the vehicle carries no more
than the first job. -/
def twoJobs : Problem Rat where
  points := #[⟨0, 0⟩, ⟨1, 0⟩, ⟨2, 0⟩, ⟨3, 0⟩]
  destinations := #[⟨"a", 1, ⟨[5]⟩, .zero, .always⟩, ⟨"b", 2, ⟨[10]⟩, .zero, .always⟩]
  vehicles := #[⟨"v", 0, none, ⟨[10]⟩, some ⟨[5]⟩, some 0, true, none, none⟩]
  profiles :=
    let rows : List (List Rat) := [[0, 1, 2, 3], [1, 0, 1, 2], [2, 1, 0, 1], [3, 2, 1, 0]]
    #[⟨"p", .ofRows rows rows none⟩]
  sites := [⟨3, none⟩]
  depotCosts := #[0, 1, 2, 3]
  longestLeg := 1

/-- The small problem as a document has it. -/
def twoDocument : ProblemDocument Rat :=
  let rows : List (List Rat) := [[0, 1, 2, 3], [1, 0, 1, 2], [2, 1, 0, 1], [3, 2, 1, 0]]
  { id := none, points := [⟨0, 0⟩, ⟨1, 0⟩, ⟨2, 0⟩, ⟨3, 0⟩],
    destinations := [⟨"a", 1, some [5], none, none⟩, ⟨"b", 2, some [10], none, none⟩],
    profiles := [⟨"p", .tables rows rows none⟩],
    vehicles := [⟨"v", "p", none, some [10], some [5], some 0, some true, none, none⟩],
    sites := [⟨3, none⟩], parameters := none }

-- All tables are written out, so any length in the plane will do.
theorem build_twoDocument :
    @ProblemDocument.build Rat _ ⟨fun x y => x + y⟩ twoDocument = .ok twoJobs := by
  with_unfolding_all rfl

theorem demandsAdd_twoJobs : twoJobs.DemandsAdd :=
  @ProblemDocument.demandsAdd_of_build ⟨fun x y => x + y⟩ twoDocument twoJobs build_twoDocument

end Haulage

/-
Module: Haulage.Proofs.UnfailingSessions
Purpose: Histories that never go wrong.  On a problem that was built from its parts, passes, bases,
  removals and resets follow each other in any order.  A pass fails in no way that is not excused,
  and a base is lacking only where every base is out.
Main exports: reliable_forProblem, Operation.IsValid, Plan.Unfailing, session_unfailing
-/
import Haulage.Proofs.Unfailing

namespace Haulage

variable {α : Type} [Quantity α]

open Attempt Plan Problem

/-- The settings for a problem rely on nothing beyond it. -/
theorem reliable_forProblem (p : Problem α) (parameters : Parameters α) :
    (Settings.forProblem p parameters).Reliable p :=
  reliable_constant (List.Subset.refl _) rfl rfl

/-! ### The order of jobs -/

section

variable {p : Problem α} {settings : Settings α} {bases : Nat} {f : Fill α} {plan : Plan α}

omit [Quantity α] in
theorem yields_sortByKey {κ : Type} {key : Nat → Except Failure κ} {le : κ → κ → Bool}
    {given : List Nat} (each : ∀ job ∈ given, p.Yields (fun _ => True) (key job)) :
    p.Yields (fun _ => True) (sortByKey key le given) := by
  unfold sortByKey
  split
  · exact .ok trivial
  · have keyed : p.Yields (fun keyed => ∀ entry ∈ keyed, True)
        (given.mapM fun job => do .ok (← key job, job)) := by
      apply Yields.mapM
      intro job member
      apply (each job member).bind
      intro _ _ _
      exact .ok trivial
    apply keyed.bind
    intro _ _ _
    exact .ok trivial

/-- Jobs of the problem can be brought into any order. -/
theorem yields_sort (linked : p.Linked) (order : JobOrder) (g : Generator) {given : List Nat}
    (known : ∀ job ∈ given, job < p.destinations.size) :
    p.Yields (fun _ => True) (order.sort p g given) := by
  have served (job : Nat) (member : job ∈ given) := yields_destination linked (known job member)
  have costs (job : Nat) (member : job ∈ given) :
      p.Yields (fun _ => True) (JobOrder.depotCost p job) := by
    apply (served job member).bind
    intro d _ inside
    rw [← linked.costs] at inside
    exact .of_answer (orOutOfTable_getElem inside) trivial
  have sorts {κ : Type} {key : Nat → Except Failure κ} (le : κ → κ → Bool)
      (each : ∀ job ∈ given, p.Yields (fun _ => True) (key job)) :
      p.Yields (fun _ => True) (do
        let sorted ← sortByKey key le given
        .ok (sorted, g)) :=
    (yields_sortByKey each).bind fun _ _ _ => .ok trivial
  cases order with
  | asGiven => exact .ok trivial
  | random => exact .ok trivial
  | demand => exact sorts _ fun job member => (served job member).bind fun _ _ _ => .ok trivial
  | far => exact sorts _ fun job member => (costs job member).bind fun _ _ _ => .ok trivial
  | close => exact sorts _ fun job member => (costs job member).bind fun _ _ _ => .ok trivial
  | timeWindow => exact sorts _ fun job member => (served job member).bind fun _ _ _ => .ok trivial

/-! ### Operations -/

namespace Fill.Ready

/-- A pass ends on a standing plan, and new trips were opened to the end. -/
theorem insertJobs (linked : p.Linked) (reliable : settings.Reliable p)
    (most : p.destinations.size ≤ bases) (ready : f.Ready p bases) (given : List Nat) :
    Ends (Fill.insertJobs p settings given) (fun _ g => g.Ready p bases) (fun e _ => p.Excuses e)
      f := by
  rw [insertJobs_eq_insertions, ends_bind]
  apply (ready.insertions linked reliable most _).mono
  · intro _ g begun
    simp only [ends_bind, onWork, ends_within, ends_get, ends_pure]
    apply (begun.work.placeAll linked reliable).mono
    · exact fun _ next kept => ⟨kept, begun.opens⟩
    · exact fun _ _ => id
  · exact fun _ _ => id

theorem recreate (linked : p.Linked) (reliable : settings.Reliable p)
    (most : p.destinations.size ≤ bases) (ready : f.Ready p bases) :
    Ends (Fill.recreate p settings) (fun _ g => g.Ready p bases) (fun e _ => p.Excuses e) f := by
  have sorts (g : Generator) := yields_sort linked settings.parameters.order g fun _ =>
    ready.work.standing.conserved.unassigned_lt
  simp only [Fill.recreate, ends_bind, ends_get, ends_ofResult]
  refine ⟨?_, (sorts _).fails⟩
  rintro ⟨sorted, _⟩ _
  exact ready.insertJobs linked reliable most sorted

/-- A base is lacking only where every base is out.  The plan stands all the same. -/
theorem insertBase {r : Nat} (linked : p.Linked) (reliable : settings.Reliable p)
    (known : r < p.vehicles.size) (ready : f.Ready p bases) :
    Ends (Fill.insertBase p settings r) (fun _ g => g.Ready p bases)
      (fun e g => p.Excuses e ∨ e = .refused .poolExhausted ∧ g.work.plan.Standing p bases ∧
        ∀ b < bases, f.work.plan.OnlyOnce (.base b)) f := by
  obtain ⟨pooled, pool, standing⟩ := ready.work.standing.refreshBases
  simp only [Fill.insertBase, onWork, Work.onVolumes, ends_bind, ends_updatePlan, ends_get,
    ends_within]
  constructor
  · intro other again
    cases pool.symm.trans again
    have refreshes := standing.refreshRoute linked known
    refine ⟨fun fresh done => ?_, fun e failed => .inl (refreshes.fails e failed)⟩
    have kept := refreshes.answers fresh done
    apply (ready.work.tracks.rebuild kept.inRange.sited kept.agrees).mono
    · intro _ counted tracks
      have now : Work.Ready p bases ⟨fresh, counted⟩ := ⟨kept, tracks⟩
      cases lowest : fresh.pool.lowestFree? with
      | none =>
          refine .inr ⟨rfl, kept, fun b inside => ?_⟩
          have out := kept.conserved.routed_of_exhausted lowest inside
          rw [routed, (refreshRoute_keeps done).1, (refreshBases_keeps pool).1] at out
          exact onlyOnce_of_routed_eq_one out
      | some b =>
          obtain ⟨route, found⟩ := kept.inRange.exists_route known
          have drives := kept.inRange.drives found
          have departs := Route.yields_departure drives
          have free := BasePool.isFree_of_lowestFree? lowest
          simp only [ends_bind, ends_ofResult, Plan.route_eq_ok.mpr found]
          constructor
          · rintro _ ⟨⟩
            refine ⟨fun departure _ => ?_, fun e failed => .inl (departs.fails e failed)⟩
            have searches : p.Yields (fun _ => True) ((settings.survey p fresh counted
                true).firstPlace r b route.vehicle departure) :=
              Survey.yields_firstPlace linked reliable now free known drives departure
            refine ⟨fun place searched => ?_, fun e failed => .inl (searches.fails e failed)⟩
            cases place with
            | none => exact ⟨now, ready.opens⟩
            | some q =>
                obtain ⟨same, job, location, duration, before, after, load, divides⟩ :=
                  Survey.firstPlace_splits (s := settings.survey p fresh counted true) found rfl
                    searched
                simp only [ends_bind, ends_within, ends_pure]
                apply (now.commit_splits linked reliable lowest (same ▸ found) divides).mono
                · exact fun _ next done => ⟨done, ready.opens⟩
                · exact fun _ _ excused => .inl excused
          · rintro _ ⟨⟩
    · exact fun _ _ impossible => impossible.elim
  · intro e failed
    cases pool.symm.trans failed

end Fill.Ready

end

/-! ### Histories -/

/-- What is asked of a plan is within the problem.  Jobs are taken out together with the trips that
served them alone. -/
def Operation.IsValid (p : Problem α) : Operation α → Prop
  | .insertJobs settings _ | .recreate settings => settings.Reliable p
  | .insertBase settings r => settings.Reliable p ∧ r < p.vehicles.size
  | .ruin _ => True
  | .resetRoute r => r < p.vehicles.size
  | _ => False

/-- Whatever is done with a plan within its problem, nothing goes wrong but what is excused.  New
trips are opened throughout a pass, every evaluation has a base for one, and a base to split a trip
is lacking only where every base is out. -/
structure Plan.Unfailing (p : Problem α) (plan : Plan α) : Prop where
  insertJobs : ∀ settings given, settings.Reliable p →
    Ends (Fill.insertJobs p settings given) (fun _ f => f.allowsNewTrips = true)
      (fun e _ => p.Excuses e) (.start p plan)
  recreate : ∀ settings, settings.Reliable p →
    Ends (Fill.recreate p settings) (fun _ f => f.allowsNewTrips = true)
      (fun e _ => p.Excuses e) (.start p plan)
  evaluations : ∀ settings given f job marked allows r vehicle departure bound e,
    settings.Reliable p → Fill.insertions p settings given (.start p plan) = .ok () f →
    job ∈ f.work.plan.unassigned →
    Room.markFullRoutes p f.work.plan f.work.volumes job = .ok marked →
    r < p.vehicles.size → vehicle < p.vehicles.size →
    (settings.survey p marked f.work.volumes allows).cheapest r job vehicle departure bound =
      .error e → p.Excuses e
  insertBase : ∀ settings r, settings.Reliable p → r < p.vehicles.size →
    Ends (Fill.insertBase p settings r) (fun _ _ => True)
      (fun e _ => p.Excuses e ∨ e = .refused .poolExhausted ∧
        ∀ b < max p.destinations.size 1, plan.OnlyOnce (.base b)) (.start p plan)
  ruin : ∀ given e, plan.ruin p given = .error e → p.Excuses e
  resetRoute : ∀ r e, r < p.vehicles.size → plan.resetRoute p r = .error e → p.Excuses e

section

variable {p : Problem α} {bases : Nat} {plan : Plan α}

theorem Plan.Standing.unfailing (linked : p.Linked)
    (standing : plan.Standing p (max p.destinations.size 1)) : plan.Unfailing p := by
  have most := Nat.le_max_left p.destinations.size 1
  have ready := Fill.Ready.start standing
  constructor
  · intro settings given reliable
    apply (ready.insertJobs linked reliable most given).mono
    · exact fun _ _ kept => kept.opens
    · exact fun _ _ => id
  · intro settings reliable
    apply (ready.recreate linked reliable most).mono
    · exact fun _ _ kept => kept.opens
    · exact fun _ _ => id
  · intro settings given f job marked allows r vehicle departure bound e reliable done waits marks
      known drives failed
    have inserts := ready.insertions linked reliable most given
    rw [Ends, done] at inserts
    obtain ⟨ledger, rfl, same, _⟩ := Room.markFullRoutes_eq_ok marks
    exact (Survey.yields_cheapest linked reliable (inserts.work.marks same) most waits known drives
      departure bound).fails e failed
  · intro settings r reliable known
    apply (ready.insertBase linked reliable known).mono
    · exact fun _ _ _ => trivial
    · rintro e _ (excused | ⟨lacking, _, out⟩)
      · exact .inl excused
      · exact .inr ⟨lacking, out⟩
  · exact fun given => (standing.ruin linked given).fails
  · exact fun r e known => (standing.resetRoute linked known).fails e

/-- Every valid operation leaves a standing plan, even where a base was lacking, unless something
excused ends it. -/
theorem Operation.IsValid.stands {operation : Operation α} (linked : p.Linked)
    (most : p.destinations.size ≤ bases) (valid : operation.IsValid p)
    (standing : plan.Standing p bases) :
    Ends (operation.perform p) (fun _ => Standing p bases)
      (fun e after => p.Excuses e ∨ e = .refused .poolExhausted ∧ after.Standing p bases) plan := by
  have ready := Fill.Ready.start standing
  cases operation with
  | insertJobs settings given =>
      apply ends_onPlan.mpr
      apply (ready.insertJobs linked valid most given).mono
      · exact fun _ _ kept => kept.work.standing
      · exact fun _ _ => .inl
  | recreate settings =>
      apply ends_onPlan.mpr
      apply (ready.recreate linked valid most).mono
      · exact fun _ _ kept => kept.work.standing
      · exact fun _ _ => .inl
  | insertBase settings r =>
      obtain ⟨reliable, known⟩ := valid
      apply ends_onPlan.mpr
      apply (ready.insertBase linked reliable known).mono
      · exact fun _ _ kept => kept.work.standing
      · rintro e _ (excused | ⟨lacking, kept, _⟩)
        · exact .inl excused
        · exact .inr ⟨lacking, kept⟩
  | ruin given =>
      have ruins := standing.ruin linked given
      simp only [perform, ends_edit, bind_eq_ok, bind_eq_error]
      constructor
      · rintro after ⟨ruined, done, equal⟩
        cases equal
        exact ruins.answers ruined done
      · rintro e (failed | ⟨_, _, failed⟩)
        · exact .inl (ruins.fails e failed)
        · cases failed
  | resetRoute r =>
      have resets := standing.resetRoute linked valid
      simp only [perform, ends_edit]
      exact ⟨resets.answers, fun e failed => .inl (resets.fails e failed)⟩
  | placeAll settings volumes => exact valid.elim
  | removeJob job => exact valid.elim
  | clearIdleBases r => exact valid.elim
  | refreshBases => exact valid.elim
  | refreshRoute r => exact valid.elim

/-- A history of valid operations leads to a standing plan, unless something excused ends it. -/
theorem session_stands {start : Plan α} {operations : List (Operation α)} (linked : p.Linked)
    (valid : ∀ operation ∈ operations, operation.IsValid p) (begins : Plan.empty p = .ok start) :
    Ends (session p operations) (fun _ => Standing p (max p.destinations.size 1))
      (fun e _ => p.Excuses e) start := by
  have most := Nat.le_max_left p.destinations.size 1
  refine session_ends _ (fun operation member plan standing => ?_) (standing_empty begins)
  apply ((valid operation member).stands linked most standing).mono
  · exact fun _ _ => id
  · rintro e after (excused | ⟨rfl, kept⟩)
    · exact ⟨fun reason refused => absurd refused (excused.not_refused reason), fun _ _ => excused⟩
    · exact ⟨fun _ _ => kept, fun _ fault => nomatch fault⟩

end

/-- On a problem that was built from its parts, no history of passes, bases, removals and resets goes
wrong, but where a time leaves the calendar, a travel time is no duration, or a table lacks an
entry. -/
theorem session_unfailing {parts : ProblemParts α} {p : Problem α} (built : parts.build = .ok p)
    {operations : List (Operation α)} (valid : ∀ operation ∈ operations, operation.IsValid p) :
    ∃ start, Plan.empty p = .ok start ∧
      Ends (session p operations) (fun _ plan => plan.Unfailing p) (fun e _ => p.Excuses e)
        start := by
  have linked := ProblemParts.linked_of_build built
  obtain ⟨start, begins⟩ : ∃ start, Plan.empty p = .ok start := by
    obtain ⟨routes, begins, _⟩ := withPool_answers p (.forJobs p.destinations.size)
    exact ⟨_, begins⟩
  refine ⟨start, begins, (session_stands linked valid begins).mono ?_ ?_⟩
  · exact fun _ plan standing => standing.unfailing linked
  · exact fun _ _ => id

/-- The parts of a problem. -/
def Problem.parts {α : Type} (p : Problem α) : ProblemParts α where
  points := some p.points.toList
  destinations := some p.destinations.toList
  vehicles := some p.vehicles.toList
  profiles := some p.profiles.toList
  sites := some p.sites

/-- A problem is built from its parts again where nothing is wrong with it. -/
theorem Problem.build_parts {p : Problem α}
    (sound : ProblemParts.firstError? p.points.size p.destinations.toList p.vehicles.toList
      p.profiles.toList p.sites = none)
    (costs : ProblemParts.depotCosts p.points.size p.vehicles.toList p.profiles =
      .ok p.depotCosts.toList)
    (leg : ProblemParts.longestLeg p.destinations.toList p.vehicles.toList p.profiles =
      .ok p.longestLeg) : p.parts.build = .ok p := by
  simp only [parts, ProblemParts.build, Option.getD_some, Array.length_toList, Array.toArray_toList,
    sound, costs, leg]
  rfl

/-- The small problem, part by part. -/
def twoParts : ProblemParts Rat where
  points := some twoJobs.points.toList
  destinations := some twoJobs.destinations.toList
  vehicles := some twoJobs.vehicles.toList
  profiles := some twoJobs.profiles.toList
  sites := some twoJobs.sites

theorem build_twoParts : twoParts.build = .ok twoJobs :=
  twoJobs.build_parts (by decide +kernel) (by decide +kernel) (by decide +kernel)

/-- Between two passes a base is lacking, since both are out. -/
theorem session_unfailing_twoJobs :
    let settings := Settings.forProblem twoJobs .standard
    let operations : List (Operation Rat) :=
      [.recreate settings, .insertBase settings 0, .ruin [0], .resetRoute 0, .recreate settings]
    (∀ operation ∈ operations, operation.IsValid twoJobs) ∧
      ∃ start plan, Plan.empty twoJobs = .ok start ∧
        session twoJobs operations start = .ok () plan ∧
        plan.itineraries = [(0, [.destination 0, .base 0, .destination 1, .base 1])] ∧
        plan.Unfailing twoJobs := by
  intro settings operations
  have reliable : settings.Reliable twoJobs := reliable_forProblem twoJobs .standard
  have valid : ∀ operation ∈ operations, operation.IsValid twoJobs := by
    have one : 0 < twoJobs.vehicles.size := by decide
    intro operation member
    simp only [operations, List.mem_cons, List.not_mem_nil, or_false] at member
    rcases member with rfl | rfl | rfl | rfl | rfl
    · exact reliable
    · exact ⟨reliable, one⟩
    · trivial
    · exact one
    · exact reliable
  have run : (Plan.empty twoJobs >>= fun empty => answer ((do
      session twoJobs operations
      return (← get).itineraries) empty)) =
        .ok [(0, [.destination 0, .base 0, .destination 1, .base 1])] := by decide +kernel
  obtain ⟨start, begins, ends⟩ := session_unfailing build_twoParts valid
  simp only [begins, bind_eq_ok, Except.ok.injEq, exists_eq_left', answer_eq_ok] at run
  obtain ⟨last, run⟩ := run
  obtain ⟨_, plan, done, reads⟩ := bind_answers.mp run
  have itineraries := (EStateM.Result.ok.inj reads).1
  rw [Ends, done] at ends
  exact ⟨valid, start, plan, begins, done, itineraries, ends⟩

end Haulage

/-
Module: Haulage.Proofs.Served
Purpose: Which jobs a pass serves.  After any history of passes, removals and resets, a job that has
  its turn is left out exactly when no route can take it, and no trip is opened on a route where the
  job could join one.
Main exports: Fill.canTake_of_best, Fill.not_canTake_of_none, Fill.ServesWherePossible,
  reach_servesWherePossible
-/
import Haulage.Proofs.Prospects
import Haulage.Proofs.UnfailingSessions

namespace Haulage

open Attempt Plan Problem

/-! ### The best offer of all routes -/

namespace Fill

variable {p : Problem Rat} {bases : Nat} {w : Work Rat} {settings : Settings Rat} {job : Nat}
  {allows : Bool} {threads : Threads} {choice : Choice Rat} {offer : Offer Rat}

/-- The best offer is made by a route that can take the job.  Where the job can join a trip, it does
so. -/
theorem canTake_of_best (poised : w.Poised p bases) (marked : w.plan.Marked p job)
    (reliable : settings.Reliable p)
    (done : bestOffer (settings.survey p w.plan w.volumes allows) threads job = .ok choice)
    (best : choice.best = some offer) :
    w.plan.CanTake p settings.provider job offer.proposal.route ∧
      (w.plan.CanJoin p job offer.proposal.route →
        ∃ route v d before after, w.plan.routes[offer.proposal.route]? = some route ∧
          JoinsTrip w.plan w.volumes route v job d before after offer.proposal) := by
  obtain ⟨known, r, answered⟩ := bestOffer_answered done offer best
  obtain ⟨rfl, takes, joins⟩ := poised.canTake_of_offer marked reliable answered
  exact ⟨takes, joins⟩

/-- Where no offer is chosen, no route can take the job. -/
theorem not_canTake_of_none (linked : p.Linked) (most : p.destinations.size ≤ bases)
    (poised : w.Poised p bases) (marked : w.plan.Marked p job) (reliable : settings.Reliable p)
    (waits : job ∈ w.plan.unassigned)
    (done : bestOffer (settings.survey p w.plan w.volumes true) threads job = .ok choice)
    (none : choice.best = none) (r : Nat) : ¬w.plan.CanTake p settings.provider job r := by
  intro takes
  have prospect := takes
  obtain ⟨route, _, _, prospect, _⟩ := prospect
  have inside := (List.getElem?_eq_some_iff.mp prospect.found).1
  have known := (poised.ready.standing.inRange.vehicle_eq prospect.found).2
  rcases bestOffer_eq_none done none (List.mem_range.mpr inside) with nothing | lacking
  · exact poised.not_canTake marked reliable nothing takes
  · have yields : p.Yields (fun _ => True)
        ((settings.survey p w.plan w.volumes true).cheapestOnRoute job .none r) :=
      Survey.yields_cheapestOnRoute linked reliable poised.ready most waits known .none
    exact (yields.fails _ lacking).not_refused _ rfl

end Fill

/-! ### Taking up the offer -/

section

variable {p : Problem Rat} {bases jobs : Nat} {w : Work Rat} {provider : LocationProvider Rat}
  {q : Proposal} {job : Nat}

theorem commit_joins_visits {route : Route} {v : Vehicle Rat} {d : Load Rat}
    {before after : List Stop} (found : w.plan.routes[q.route]? = some route)
    (joins : JoinsTrip w.plan w.volumes route v job d before after q) :
    Ends (Fill.commit p q)
      (fun _ next => next.plan.Visits q.route (before ++ .destination job :: after))
      (fun _ _ => True) w := by
  have visits := joins.visits found
  apply Work.commit_plan (Q := fun plan => plan.Visits q.route (before ++ .destination job :: after))
    (E := fun _ => True) trivial
  refine joins.ends_changes (fun next inserted => ⟨trivial, ?_⟩) fun _ => trivial
  intro fresh refreshed
  exact ⟨(visits.insertStop inserted).refreshRoute refreshed, trivial⟩

/-- A job that joins a trip leaves the number of trips as it is. -/
theorem commit_joins_trips {route : Route} {v : Vehicle Rat} {d : Load Rat}
    {before after : List Stop} (found : w.plan.routes[q.route]? = some route)
    (joins : JoinsTrip w.plan w.volumes route v job d before after q) :
    Ends (Fill.commit p q)
      (fun _ next => basesIn (next.plan.stopsOn q.route) = basesIn (w.plan.stopsOn q.route))
      (fun _ _ => True) w := by
  have visits := joins.visits found
  apply (commit_joins_visits found joins).mono
  · intro _ next visitsNow
    rw [visitsNow.stopsOn_eq, visits.stopsOn_eq]
    simp
  · exact fun _ _ => id

/-- A job that was offered a place is visited. -/
theorem commit_serves_visits (conserved : Conserved jobs bases w.plan)
    (serves : Serves p w.plan w.volumes provider job q) :
    Ends (Fill.commit p q)
      (fun _ next => ∃ stops, next.plan.Visits q.route stops ∧ .destination job ∈ stops)
      (fun _ _ => True) w := by
  rcases serves with ⟨route, v, d, found, _, _, _, offer⟩
  rcases offer with ⟨before, after, joins⟩ | ⟨b, location, duration, opens⟩
  · apply (commit_joins_visits found joins).mono
    · exact fun _ next visits => ⟨_, visits, List.mem_append_right _ List.mem_cons_self⟩
    · exact fun _ _ => id
  · apply Work.commit_plan (E := fun _ => True)
      (Q := fun plan => ∃ stops, plan.Visits q.route stops ∧ .destination job ∈ stops) trivial
    rw [opens.changes_eq]
    refine ends_opening conserved (visits_of_route found)
      (BasePool.isFree_of_lowestFree? opens.lowest) (fun _ => trivial)
      fun closed closes => ⟨trivial, fun fresh refreshed => ?_⟩
    exact ⟨⟨_, closes.visits.refreshRoute refreshed, by simp⟩, trivial⟩

variable {settings : Settings Rat}

/-- Once an offer is taken up, the job is visited and waits no longer.  If it joined a trip, there are
as many trips as before. -/
theorem Work.Poised.commit_serves {joining : Prop} (linked : p.Linked)
    (reliable : settings.Reliable p) (poised : w.Poised p bases)
    (waits : job ∈ w.plan.unassigned)
    (serves : Serves p w.plan w.volumes settings.provider job q)
    (joins : joining → ∃ route v d before after, w.plan.routes[q.route]? = some route ∧
      JoinsTrip w.plan w.volumes route v job d before after q) :
    Ends (Fill.commit p q)
      (fun _ next => job ∉ next.plan.unassigned ∧ .destination job ∈ next.plan.stopsOn q.route ∧
        (joining → basesIn (next.plan.stopsOn q.route) = basesIn (w.plan.stopsOn q.route)))
      (fun e _ => p.Excuses e) w := by
  have conserved := poised.ready.standing.conserved
  have trips : Ends (Fill.commit p q) (fun _ next =>
      joining → basesIn (next.plan.stopsOn q.route) = basesIn (w.plan.stopsOn q.route))
      (fun _ _ => True) w := by
    by_cases could : joining
    · obtain ⟨route, v, d, before, after, found, joined⟩ := joins could
      apply (commit_joins_trips found joined).mono
      · exact fun _ _ same _ => same
      · exact fun _ _ => id
    · exact ends_of_forall (fun _ _ can => absurd can could) fun _ _ => trivial
  have commits := (poised.ready.commit_serves linked reliable waits serves).and
    ((commit_serves_visits conserved serves).and trips)
  apply commits.mono
  · rintro _ next ⟨ready, ⟨stops, visits, among⟩, same⟩
    have absent := ready.standing.conserved.waiting_of_visits visits among
    exact ⟨List.count_eq_zero.mp absent, visits.stopsOn_eq ▸ among, same⟩
  · exact fun _ _ failed => failed.1

end

/-! ### Turns -/

section

variable {α : Type} [Quantity α]

/-- The turn of a job.  It is served exactly if some route could take it, and then it is noted on a
route that could.  That route has no more trips than before if the job could join one.  A job that
is left out changes no route. -/
structure Fill.ServesWherePossible (p : Problem α) (provider : LocationProvider α) (job : Nat)
    (f g : Fill α) : Prop where
  served_iff : job ∉ g.work.plan.unassigned ↔ ∃ r, f.work.plan.CanTake p provider job r
  serves : job ∉ g.work.plan.unassigned → ∃ commit, g.commits = commit :: f.commits ∧
    f.work.plan.CanTake p provider job commit.offer.proposal.route ∧
    .destination job ∈ g.work.plan.stopsOn commit.offer.proposal.route ∧
    (f.work.plan.CanJoin p job commit.offer.proposal.route →
      basesIn (g.work.plan.stopsOn commit.offer.proposal.route) =
        basesIn (f.work.plan.stopsOn commit.offer.proposal.route))
  leaves : job ∈ g.work.plan.unassigned →
    g.commits = f.commits ∧ g.work.plan.itineraries = f.work.plan.itineraries

end

variable {p : Problem Rat} {bases : Nat} {settings : Settings Rat} {job : Nat} {f : Fill Rat}

theorem Fill.insertJob_servesWherePossible (linked : p.Linked) (reliable : settings.Reliable p)
    (most : p.destinations.size ≤ bases) (poised : f.work.Poised p bases)
    (opens : f.allowsNewTrips = true) (waits : job ∈ f.work.plan.unassigned) :
    Ends (insertJob p settings job)
      (fun _ g => ServesWherePossible p settings.provider job f g) (fun e _ => p.Excuses e) f := by
  have known := poised.ready.standing.conserved.unassigned_lt waits
  have marks := Room.yields_markFullRoutes poised.ready known
  simp only [insertJob, ends_bind, ends_get]
  rw [if_pos (show f.work.plan.isUnassigned job = true from List.contains_iff_mem.mpr waits)]
  simp only [ends_bind, ends_get, ends_ofResult, ends_set, ends_modify]
  refine ⟨fun marked done => ?_, marks.fails⟩
  obtain ⟨ledger, rfl, same⟩ := marks.answers marked done
  have poisedNow := poised.marks same
  have marked := poised.marked done
  have chooses := yields_bestOffer linked reliable poisedNow.ready most waits f.allowsNewTrips
    settings.parameters.threads
  refine ⟨fun choice chosen => ?_, chooses.fails⟩
  cases best : choice.best with
  | none =>
      rw [opens] at chosen
      have nowhere (r : Nat) : ¬f.work.plan.CanTake p settings.provider job r := by
        rw [← canTake_marks ledger]
        exact not_canTake_of_none linked most poisedNow marked reliable waits chosen best r
      constructor
      · exact ⟨fun gone => absurd waits gone, fun some => some.elim fun r takes => absurd takes
          (nowhere r)⟩
      · exact fun gone => absurd waits gone
      · exact fun _ => ⟨rfl, rfl⟩
  | some offer =>
      obtain ⟨takes, joins⟩ := canTake_of_best poisedNow marked reliable chosen best
      have serves := bestOffer_serves chosen best
      rw [canTake_marks] at takes
      simp only [ends_bind, onWork, ends_within, ends_modify]
      have commits := poisedNow.commit_serves linked reliable waits serves
        fun could : f.work.plan.CanJoin p job offer.proposal.route => joins (could.marks ledger)
      apply commits.mono
      · rintro _ next ⟨gone, among, same⟩
        constructor
        · exact ⟨fun _ => ⟨_, takes⟩, fun _ => gone⟩
        · exact fun _ => ⟨_, rfl, takes, among, same⟩
        · exact fun left => absurd left gone
      · exact fun _ _ => id

/-! ### Histories -/

/-- A plan on which no job is left behind the last base of a route. -/
structure Plan.Whole (p : Problem Rat) (bases : Nat) (plan : Plan Rat) : Prop where
  standing : plan.Standing p bases
  inTrips : plan.AllInTrips False p.destinations.size bases

theorem Plan.whole_empty {start : Plan Rat} (begins : Plan.empty p = .ok start) :
    start.Whole p (max p.destinations.size 1) := by
  refine ⟨standing_empty begins, withPool_conserves begins, fun r stops visits => ?_⟩
  rw [visits_empty begins visits]
  exact .nil False _

/-- Unless a base is put into a route on its own, every valid operation leaves jobs on closed trips
only. -/
theorem Operation.IsValid.whole {operation : Operation Rat} (linked : p.Linked)
    (most : p.destinations.size ≤ bases) (valid : operation.IsValid p)
    (joins : ∀ settings r, operation ≠ .insertBase settings r) {plan : Plan Rat}
    (whole : plan.Whole p bases) :
    Ends (operation.perform p) (fun _ => Plan.Whole p bases)
      (fun e after => ∀ reason, e = .refused reason → after.Whole p bases) plan := by
  have repaired (job : Nat) : operation ≠ .removeJob job := by
    rintro rfl
    exact valid
  have stands := valid.stands linked most whole.standing
  have shaped := operation.inTrips p repaired (fun settings r same => joins settings r same)
    whole.inTrips
  apply (stands.and shaped).mono
  · exact fun _ after kept => ⟨kept.1, kept.2⟩
  · rintro e after ⟨excused | ⟨_, standing⟩, all⟩ reason refused
    · exact absurd refused (excused.not_refused reason)
    · exact ⟨standing, all⟩

/-- At its turn in a further pass, a job finds every job that is served on a closed trip, and volumes
that tell the truth. -/
theorem Plan.Whole.poised {plan : Plan Rat} {given : List Nat} (linked : p.Linked)
    (most : p.destinations.size ≤ bases) (reliable : settings.Reliable p)
    (whole : plan.Whole p bases)
    (begun : Fill.insertions p settings given (.start p plan) = .ok () f) :
    f.Ready p bases ∧ f.work.Poised p bases := by
  have ready := (Fill.Ready.start whole.standing).insertions linked reliable most given
  have exact := insertions_exact settings given whole.standing.conserved
  have inTrips : Ends (Fill.insertions p settings given)
      (fun _ g => g.work.plan.AllInTrips False p.destinations.size bases) _ (.start p plan) :=
    insertions_inTrips given whole.inTrips
  rw [Ends, begun] at ready exact inTrips
  exact ⟨ready, ready.work, exact, fun r stops visits => (inTrips.routes r stops visits).closed id⟩

/-- After any history of passes, removals and resets, a job that waits at its turn in a further pass
is served exactly if some route can take it: on a trip that has room or, where none has, on one that
is opened.  Where the job could join a trip of the chosen route, none is opened there. -/
theorem reach_servesWherePossible {parts : ProblemParts Rat} (built : parts.build = .ok p)
    {operations : List (Operation Rat)} (valid : ∀ operation ∈ operations, operation.IsValid p)
    (joins : ∀ settings r, Operation.insertBase settings r ∉ operations) {plan : Plan Rat}
    (reached : Plan.reach p operations = .ok plan) (reliable : settings.Reliable p)
    {given : List Nat} (begun : Fill.insertions p settings given (.start p plan) = .ok () f)
    (waits : job ∈ f.work.plan.unassigned) :
    Ends (Fill.insertJob p settings job)
      (fun _ g => Fill.ServesWherePossible p settings.provider job f g)
      (fun e _ => p.Excuses e) f := by
  have linked := ProblemParts.linked_of_build built
  have most := Nat.le_max_left p.destinations.size 1
  have whole : plan.Whole p (max p.destinations.size 1) := by
    refine reach_keeps (Plan.Whole p _) (fun operation member before kept => ?_)
      (fun _ => whole_empty) reached
    apply (valid operation member).whole linked most (fun settings r same => ?_) kept
    exact joins settings r (same ▸ member)
  obtain ⟨ready, poised⟩ := whole.poised linked most reliable begun
  exact Fill.insertJob_servesWherePossible linked reliable most poised ready.opens waits

/-- The second job is too much for the first trip.  It is left out as long as no trip is there, and
opens one behind that of the first job. -/
theorem reach_servesWherePossible_twoJobs :
    let settings := Settings.forProblem twoJobs .standard
    let operations : List (Operation Rat) := [.recreate settings, .ruin [0, 1]]
    (∀ operation ∈ operations, operation.IsValid twoJobs) ∧
      (∀ settings r, Operation.insertBase settings r ∉ operations) ∧
      ∃ plan, Plan.reach twoJobs operations = .ok plan ∧
        (∃ f g, Fill.insertions twoJobs settings [] (.start twoJobs plan) = .ok () f ∧
          Fill.insertJob twoJobs settings 1 f = .ok () g ∧
          f.work.plan.unassigned = [0, 1] ∧ g.work.plan.unassigned = [0, 1] ∧
          ¬∃ r, f.work.plan.CanTake twoJobs settings.provider 1 r) ∧
        ∃ f g, Fill.insertions twoJobs settings [0] (.start twoJobs plan) = .ok () f ∧
          Fill.insertJob twoJobs settings 1 f = .ok () g ∧
          f.work.plan.unassigned = [1] ∧ g.work.plan.unassigned = [] ∧
          ∃ r, f.work.plan.CanTake twoJobs settings.provider 1 r := by
  intro settings operations
  have reliable : settings.Reliable twoJobs := reliable_forProblem twoJobs .standard
  have valid : ∀ operation ∈ operations, operation.IsValid twoJobs := by
    intro operation member
    simp only [operations, List.mem_cons, List.not_mem_nil, or_false] at member
    rcases member with rfl | rfl
    · exact reliable
    · trivial
  have joins (other : Settings Rat) (r : Nat) : Operation.insertBase other r ∉ operations := by
    simp [operations]
  have alone : (Plan.reach twoJobs operations >>= fun plan => answer ((do
      Fill.insertions twoJobs settings []
      let f ← get
      Fill.insertJob twoJobs settings 1
      return (f.work.plan.unassigned, (← get).work.plan.unassigned)) (.start twoJobs plan))) =
        .ok ([0, 1], [0, 1]) := by decide +kernel
  have behind : (Plan.reach twoJobs operations >>= fun plan => answer ((do
      Fill.insertions twoJobs settings [0]
      let f ← get
      Fill.insertJob twoJobs settings 1
      return (f.work.plan.unassigned, (← get).work.plan.unassigned)) (.start twoJobs plan))) =
        .ok ([1], []) := by decide +kernel
  obtain ⟨plan, reached, alone⟩ := bind_eq_ok.mp alone
  simp only [reached, bind_eq_ok, Except.ok.injEq, exists_eq_left', answer_eq_ok] at behind
  refine ⟨valid, joins, plan, reached, ?_, ?_⟩
  · obtain ⟨_, run⟩ := answer_eq_ok.mp alone
    obtain ⟨_, f, begun, run⟩ := bind_answers.mp run
    obtain ⟨_, _, ⟨⟩, run⟩ := bind_answers.mp run
    obtain ⟨_, g, turned, reads⟩ := bind_answers.mp run
    obtain ⟨before, after⟩ := Prod.mk.inj (EStateM.Result.ok.inj reads).1
    have waits : 1 ∈ f.work.plan.unassigned := before ▸ List.mem_cons_of_mem 0 List.mem_cons_self
    have ends := reach_servesWherePossible build_twoParts valid joins reached reliable begun waits
    rw [Ends, turned] at ends
    refine ⟨f, g, begun, turned, before, after, fun takes => ends.served_iff.mpr takes ?_⟩
    exact after ▸ List.mem_cons_of_mem 0 List.mem_cons_self
  · obtain ⟨_, run⟩ := behind
    obtain ⟨_, f, begun, run⟩ := bind_answers.mp run
    obtain ⟨_, _, ⟨⟩, run⟩ := bind_answers.mp run
    obtain ⟨_, g, turned, reads⟩ := bind_answers.mp run
    obtain ⟨before, after⟩ := Prod.mk.inj (EStateM.Result.ok.inj reads).1
    have waits : 1 ∈ f.work.plan.unassigned := before ▸ List.mem_cons_self
    have ends := reach_servesWherePossible build_twoParts valid joins reached reliable begun waits
    rw [Ends, turned] at ends
    refine ⟨f, g, begun, turned, before, after, ends.served_iff.mp ?_⟩
    exact after ▸ List.not_mem_nil

end Haulage

/-
Module: Haulage.Proofs.Turn
Purpose: The turns of a pass.  A job is marked, the best offer for it is sought, and the proposal of
  that offer is carried out change by change.
Main exports: SameMarks, Room.markFullRoutes_eq_ok, makeChanges, Work.commit_ends,
  Fill.insertJob_ends, Fill.insertJobs_ends, Fill.insertBase_ends
-/
import Haulage.Proofs.Faults
import Haulage.Proofs.Offers
import Haulage.Proofs.Session

namespace Haulage

variable {α : Type} [Quantity α]

open Attempt

/-! ### Marking routes -/

/-- Ledgers that agree on everything but whether the job at hand needs a new trip. -/
def SameMarks (l other : Ledger α) : Prop :=
  ∀ r, { l.entry r with needsBase := none } = { other.entry r with needsBase := none }

namespace SameMarks

variable {l other : Ledger α}

omit [Quantity α]

theorem trip_eq (same : SameMarks l other) (r trip : Nat) : l.trip r trip = other.trip r trip := by
  have trips := congrArg RouteEntry.trips (same r)
  simp only at trips
  rw [Ledger.trip, Ledger.trip, trips]

theorem load_eq (same : SameMarks l other) (r trip : Nat) : l.load r trip = other.load r trip := by
  rw [Ledger.load, Ledger.load, Ledger.load?, Ledger.load?, same.trip_eq]

end SameMarks

omit [Quantity α] in
theorem sameMarks_putNeedsBase (l : Ledger α) (route : Nat) (needed : Bool) :
    SameMarks (l.putNeedsBase route needed).2 l := by
  intro r
  by_cases same : route = r
  · subst same
    rw [Ledger.putNeedsBase, Ledger.entry_modifyEntry_self]
  · rw [Ledger.putNeedsBase, Ledger.entry_modifyEntry_of_ne l same]

/-- Marking the routes for a job writes nothing else into the ledger, and removes nothing. -/
theorem Room.markFullRoutes_eq_ok {p : Problem α} {plan marked : Plan α} {volumes : Volumes α}
    {job : Nat} (done : Room.markFullRoutes p plan volumes job = .ok marked) :
    ∃ ledger, marked = { plan with ledger := ledger } ∧ SameMarks ledger plan.ledger ∧
      plan.ledger.routes.length ≤ ledger.routes.length := by
  simp only [Room.markFullRoutes, bind_eq_ok] at done
  rcases done with ⟨full, _, equal⟩
  cases equal
  refine ⟨_, rfl, ?_⟩
  suffices along : ∀ (marks : List (Nat × Bool)) (l : Ledger α), SameMarks l plan.ledger →
      plan.ledger.routes.length ≤ l.routes.length →
      let marked := marks.foldl (fun (l : Ledger α) mark => (l.putNeedsBase mark.1 mark.2).2) l
      SameMarks marked plan.ledger ∧ plan.ledger.routes.length ≤ marked.routes.length from
    along _ _ (fun _ => rfl) (Nat.le_refl _)
  intro marks
  induction marks with
  | nil => exact fun l same enters => ⟨same, enters⟩
  | cons mark marks inductionHypothesis =>
      intro l same enters
      apply inductionHypothesis _
      · intro r
        exact (sameMarks_putNeedsBase l mark.1 mark.2 r).trans (same r)
      · exact enters.trans (Ledger.length_modifyEntry l mark.1 _)

/-! ### Making changes -/

/-- Makes changes one after the other. -/
def makeChanges (changes : List Change) : Attempt (Plan α) Unit :=
  changes.forM fun change => do
    set (← Attempt.ofResult (Proposal.applyChange (← get) change))

omit [Quantity α] in
theorem apply_eq_makeChanges (q : Proposal) :
    (q.apply : Attempt (Plan α) Unit) = makeChanges q.changes := rfl

section

variable {plan last : Plan α}

omit [Quantity α]

@[simp] theorem makeChanges_nil_answers : makeChanges [] plan = .ok () last ↔ last = plan := by
  constructor
  · intro done
    cases done
    rfl
  · rintro rfl
    rfl

/-- Changes are made one after the other. -/
@[simp] theorem makeChanges_cons_answers {change : Change} {rest : List Change} :
    makeChanges (change :: rest) plan = .ok () last ↔
      ∃ next, Proposal.applyChange plan change = .ok next ∧ makeChanges rest next = .ok () last := by
  have split : (makeChanges (change :: rest) : Attempt (Plan α) Unit) =
      (do set (← Attempt.ofResult (Proposal.applyChange (← get) change))) >>= fun _ =>
        makeChanges rest := rfl
  rw [split, bind_answers]
  simp only [get_bind, bind_answers, ofResult_answers]
  constructor
  · rintro ⟨_, next, ⟨_, _, ⟨changed, rfl⟩, equal⟩, later⟩
    cases equal
    exact ⟨next, changed, later⟩
  · rintro ⟨next, changed, later⟩
    exact ⟨(), next, ⟨next, plan, ⟨changed, rfl⟩, rfl⟩, later⟩

end

section

variable {plan : Plan α} {Q : Unit → Plan α → Prop} {E : Failure → Plan α → Prop}

omit [Quantity α]

@[simp] theorem ends_makeChanges_nil : Ends (makeChanges []) Q E plan ↔ Q () plan := Iff.rfl

@[simp] theorem ends_makeChanges_cons (change : Change) (rest : List Change) :
    Ends (makeChanges (change :: rest)) Q E plan ↔
      (∀ next, Proposal.applyChange plan change = .ok next → Ends (makeChanges rest) Q E next) ∧
        ∀ e, Proposal.applyChange plan change = .error e → E e plan := by
  apply (ends_bind _ _).trans
  simp only [ends_bind, ends_get, ends_ofResult, ends_set]
  exact Iff.rfl

/-- A stop that can be inserted is inserted before the other changes are made. -/
theorem ends_makeChanges_insert {next : Plan α} {r position : Nat} {stop : Stop}
    {rest : List Change} (done : plan.insertStop r position stop = .ok next)
    (later : Ends (makeChanges rest) Q E next) :
    Ends (makeChanges (.insert r position stop :: rest)) Q E plan := by
  refine (ends_makeChanges_cons _ rest).mpr ⟨fun other again => ?_, fun e failed => ?_⟩
  · cases done.symm.trans again
    exact later
  · cases done.symm.trans failed

/-- A base that can be put at a location is put there before the other changes are made. -/
theorem ends_makeChanges_place {next : Plan α} {b location : Nat} {duration : Duration}
    {rest : List Change} (done : plan.placeBase b location duration = .ok next)
    (later : Ends (makeChanges rest) Q E next) :
    Ends (makeChanges (.place b location duration :: rest)) Q E plan := by
  refine (ends_makeChanges_cons _ rest).mpr ⟨fun other again => ?_, fun e failed => ?_⟩
  · cases done.symm.trans again
    exact later
  · cases done.symm.trans failed

end

/-- A job that joins a trip is inserted, or the plan stays as it is. -/
theorem JoinsTrip.ends_changes {plan : Plan α} {volumes : Volumes α} {route : Route}
    {v : Vehicle α} {job : Nat} {demand : Load α} {before after : List Stop} {q : Proposal}
    {Q : Unit → Plan α → Prop} {E : Failure → Plan α → Prop}
    (joins : JoinsTrip plan volumes route v job demand before after q)
    (inserts : ∀ next, plan.insertStop q.route before.length (.destination job) = .ok next →
      Q () next) (fails : ∀ e, E e plan) : Ends (makeChanges q.changes) Q E plan := by
  rw [joins.changes_eq]
  exact (ends_makeChanges_cons _ _).mpr ⟨inserts, fun e _ => fails e⟩

namespace Work

/-- How a proposal brings the volumes up to date once it was carried out. -/
def recount (p : Problem α) (q : Proposal) (volumes : Volumes α) (plan : Plan α) :
    Attempt (Work α) Unit :=
  if q.opensTrip then onVolumes (Volumes.rebuild plan)
  else
    match plan.ledger.unloadLocation? q.route q.trip, q.job? with
    | some location, some job => do
      let d ← Attempt.ofResult (p.destination job)
      let counted ← Attempt.ofResult (volumes.add location d.demand)
      set (⟨plan, counted⟩ : Work α)
    | _, _ => pure ()

/-- Taking up a proposal: it is checked, its changes are made, the route is refreshed, and the
volumes are brought up to date. -/
theorem commit_ends {p : Problem α} {q : Proposal} {w : Work α} {Q : Unit → Work α → Prop}
    {E : Failure → Work α → Prop} (checks : ∀ e, q.check w.plan = .error e → E e w)
    (changes : Ends (makeChanges q.changes) (fun _ plan =>
        (∀ e, plan.refreshRoute p q.route = .error e → E e { w with plan := plan }) ∧
        ∀ fresh, plan.refreshRoute p q.route = .ok fresh →
          Ends (recount p q w.volumes fresh) Q E { w with plan := fresh })
      (fun e plan => E e { w with plan := plan }) w.plan) : Ends (Fill.commit p q) Q E w := by
  simp only [Fill.commit, ends_bind, ends_get, ends_ofResult]
  refine ⟨fun _ _ => ?_, checks⟩
  simp only [onPlan, ends_within, apply_eq_makeChanges]
  refine changes.mono (fun _ plan after => ?_) fun _ _ failed => failed
  simp only [ends_bind, ends_get, ends_ofResult, ends_set]
  exact ⟨fun fresh refreshed => after.2 fresh refreshed, after.1⟩

theorem recount_plan (p : Problem α) (q : Proposal) (volumes : Volumes α) (w : Work α) :
    Ends (recount p q volumes w.plan) (fun _ next => next.plan = w.plan)
      (fun _ next => next.plan = w.plan) w := by
  unfold recount
  split
  · exact (ends_within _ _ _).mpr (ends_of_forall (fun _ _ => rfl) fun _ _ => rfl)
  · split
    · simp [ends_ofResult]
    · exact rfl

/-- A proposal was taken up: its changes were made and its route was refreshed. -/
theorem commit_answers {p : Problem α} {q : Proposal} {w next : Work α}
    (done : Fill.commit p q w = .ok () next) :
    ∃ changed, makeChanges q.changes w.plan = .ok () changed ∧
      changed.refreshRoute p q.route = .ok next.plan := by
  have ends : Ends (Fill.commit p q) (fun _ next => ∃ changed,
      makeChanges q.changes w.plan = .ok () changed ∧
        changed.refreshRoute p q.route = .ok next.plan) (fun _ _ => True) w := by
    apply commit_ends (fun _ _ => trivial)
    refine (ends_answers (makeChanges q.changes) w.plan).mono (fun _ changed makes => ?_)
      fun _ _ _ => trivial
    refine ⟨fun _ _ => trivial, fun fresh refreshed => ?_⟩
    refine (recount_plan p q w.volumes { w with plan := fresh }).mono (fun _ last same => ?_)
      fun _ _ _ => trivial
    exact ⟨changed, makes, same ▸ refreshed⟩
  rw [Ends, done] at ends
  exact ends

/-- Taking up a proposal, as far as the plan goes.  `E` holds of every plan on the way and `Q` of
the one in which the route was refreshed. -/
theorem commit_plan {p : Problem α} {q : Proposal} {w : Work α} {Q E : Plan α → Prop}
    (begins : E w.plan)
    (changes : Ends (makeChanges q.changes) (fun _ plan => E plan ∧ ∀ fresh,
      plan.refreshRoute p q.route = .ok fresh → Q fresh ∧ E fresh) (fun _ => E) w.plan) :
    Ends (Fill.commit p q) (fun _ next => Q next.plan) (fun _ next => E next.plan) w := by
  refine commit_ends (fun _ _ => begins)
    (changes.mono (fun _ plan after => ?_) fun _ _ failed => failed)
  refine ⟨fun _ _ => after.1, fun fresh refreshed => ?_⟩
  obtain ⟨last, refresh⟩ := after.2 fresh refreshed
  refine (recount_plan p q w.volumes { w with plan := fresh }).mono (fun _ next same => ?_)
    fun _ next same => ?_
  · exact same ▸ last
  · exact same ▸ refresh

/-- What the changes of a proposal and a refresh keep, taking it up keeps. -/
theorem commit_keeps {p : Problem α} {q : Proposal} {w : Work α} (I : Plan α → Prop)
    (holds : I w.plan)
    (refreshes : ∀ plan fresh, I plan → plan.refreshRoute p q.route = .ok fresh → I fresh)
    (changes : Ends (makeChanges q.changes) (fun _ => I) (fun _ => I) w.plan) :
    Ends (Fill.commit p q) (fun _ next => I next.plan) (fun _ next => I next.plan) w := by
  refine commit_plan holds (changes.mono (fun _ plan kept => ?_) fun _ _ failed => failed)
  exact ⟨kept, fun fresh refreshed =>
    ⟨refreshes plan fresh kept refreshed, refreshes plan fresh kept refreshed⟩⟩

end Work

namespace Fill

/-- The turn of a job keeps what marking and taking up an offer keep. -/
theorem insertJob_ends {p : Problem α} {settings : Settings α} {job : Nat} {f : Fill α}
    (J : Work α → Prop) {E : Failure → Work α → Prop} (begins : J f.work)
    (marks : ∀ w ledger, J w → SameMarks ledger w.plan.ledger →
      w.plan.ledger.routes.length ≤ ledger.routes.length →
      J { w with plan := { w.plan with ledger := ledger } })
    (fails : ∀ w e, J w → E e w)
    (commits : ∀ w q, J w → Serves p w.plan w.volumes settings.provider job q →
      Ends (commit p q) (fun _ => J) E w) :
    Ends (insertJob p settings job) (fun _ g => J g.work) (fun e g => E e g.work) f := by
  simp only [insertJob, ends_bind, ends_get]
  split
  · simp only [ends_bind, ends_get, ends_ofResult, ends_set, ends_modify]
    refine ⟨fun marked done => ?_, fun e _ => fails _ e begins⟩
    obtain ⟨ledger, rfl, same, enters⟩ := Room.markFullRoutes_eq_ok done
    have holds := marks _ ledger begins same enters
    refine ⟨fun choice chosen => ?_, fun e _ => fails _ e holds⟩
    cases best : choice.best with
    | none => exact holds
    | some offer =>
        simp only [ends_bind, onWork, ends_within, ends_modify]
        exact commits _ _ holds (bestOffer_serves chosen best)
  · exact begins

/-- The insertions of a pass, with which it begins. -/
def insertions (p : Problem α) (settings : Settings α)
    (jobs : List Nat) : Attempt (Fill α) Unit := do
  prepare p
  jobs.forM (insertJob p settings)

/-- A pass is its insertions, of which there are none when it is stopped, and the placement. -/
theorem insertJobs_eq_insertions (p : Problem α) (settings : Settings α) (jobs : List Nat) :
    insertJobs p settings jobs = (do
      insertions p settings (if settings.isStopped then [] else jobs)
      let _ ← onWork (Work.placeAll p settings)
      return (← get).work.plan.unassigned) := by
  unfold insertJobs insertions
  cases settings.isStopped with
  | true => simp
  | false => simp

/-- Insertions keep what the turns of their jobs keep. -/
theorem insertions_ends {p : Problem α} {settings : Settings α} {jobs : List Nat} {f : Fill α}
    (J : Work α → Prop) {E : Failure → Work α → Prop}
    (prepares : Ends (prepare p) (fun _ g => J g.work) (fun e g => E e g.work) f)
    (turns : ∀ job g, J g.work →
      Ends (insertJob p settings job) (fun _ g => J g.work) (fun e g => E e g.work) g) :
    Ends (insertions p settings jobs) (fun _ g => J g.work) (fun e g => E e g.work) f := by
  simp only [insertions, ends_bind]
  refine prepares.mono (fun _ g holds => ?_) fun _ _ failed => failed
  exact Ends.forM (fun g : Fill α => J g.work) (fun job _ => turns job) holds

/-- A pass ends as the placement of the bases ends after the insertions. -/
theorem insertJobs_ends {p : Problem α} {settings : Settings α} {jobs : List Nat} {f : Fill α}
    (J : Work α → Prop) {Q : Work α → Prop} {E : Failure → Work α → Prop}
    (inserts : ∀ given, Ends (insertions p settings given) (fun _ g => J g.work)
      (fun e g => E e g.work) f)
    (places : ∀ w, J w → Ends (Work.placeAll p settings) (fun _ => Q) E w) :
    Ends (insertJobs p settings jobs) (fun _ g => Q g.work) (fun e g => E e g.work) f := by
  rw [insertJobs_eq_insertions, ends_bind]
  refine (inserts _).mono (fun _ g holds => ?_) fun _ _ failed => failed
  simp only [ends_bind, onWork, ends_within, ends_get, ends_pure]
  exact places g.work holds

/-- A pass over all unassigned jobs is one over some list of jobs. -/
theorem recreate_ends {p : Problem α} {settings : Settings α} {f : Fill α} {Q : Work α → Prop}
    {E : Failure → Work α → Prop} (fails : ∀ e, E e f.work)
    (passes : ∀ jobs, Ends (insertJobs p settings jobs) (fun _ g => Q g.work)
      (fun e g => E e g.work) f) :
    Ends (recreate p settings) (fun _ g => Q g.work) (fun e g => E e g.work) f := by
  simp only [recreate, ends_bind, ends_get, ends_ofResult]
  constructor
  · rintro ⟨sorted, _⟩ _
    exact passes sorted
  · intro e _
    exact fails e

omit [Quantity α] in
@[simp] theorem ends_updatePlan {change : Plan α → Except Failure (Plan α)} {f : Fill α}
    {Q : Unit → Fill α → Prop} {E : Failure → Fill α → Prop} :
    Ends (updatePlan change) Q E f ↔
      (∀ plan, change f.work.plan = .ok plan →
        Q () { f with work := { f.work with plan := plan } }) ∧
      ∀ e, change f.work.plan = .error e → E e f := by
  simp only [updatePlan, ends_bind, ends_get, ends_ofResult, ends_set]

/-- A pass begins with the pool, then the routes, and last the volumes. -/
theorem prepare_ends {p : Problem α} {f : Fill α} {J : Work α → Prop}
    {E : Failure → Work α → Prop}
    (bases : ∀ e, f.work.plan.refreshBases = .error e → E e f.work)
    (routes : ∀ pooled e, f.work.plan.refreshBases = .ok pooled →
      pooled.refreshRoutes p = .error e → E e { f.work with plan := pooled })
    (counts : ∀ pooled fresh, f.work.plan.refreshBases = .ok pooled →
      pooled.refreshRoutes p = .ok fresh →
      Ends (Volumes.rebuild fresh) (fun _ volumes => J ⟨fresh, volumes⟩)
        (fun e volumes => E e ⟨fresh, volumes⟩) f.work.volumes) :
    Ends (prepare p) (fun _ g => J g.work) (fun e g => E e g.work) f := by
  simp only [prepare, onWork, Work.onVolumes, ends_bind, ends_updatePlan, ends_get, ends_within]
  exact ⟨fun pooled pool => ⟨fun fresh refreshed => counts pooled fresh pool refreshed,
    fun e failed => routes pooled e pool failed⟩, bases⟩

/-- A base is put into a route at the first place where it may go, once pool, route and volumes
are up to date. -/
theorem insertBase_ends {p : Problem α} {settings : Settings α} {r : Nat} {f : Fill α}
    {J : Work α → Prop} {E : Failure → Work α → Prop}
    (bases : ∀ e, f.work.plan.refreshBases = .error e → E e f.work)
    (routes : ∀ pooled e, f.work.plan.refreshBases = .ok pooled →
      pooled.refreshRoute p r = .error e → E e { f.work with plan := pooled })
    (counts : ∀ pooled fresh, f.work.plan.refreshBases = .ok pooled →
      pooled.refreshRoute p r = .ok fresh →
      Ends (Volumes.rebuild fresh) (fun _ volumes => J ⟨fresh, volumes⟩)
        (fun e volumes => E e ⟨fresh, volumes⟩) f.work.volumes)
    (fails : ∀ w e, J w → E e w)
    (commits : ∀ w q route b job location duration before after load, J w →
      w.plan.pool.lowestFree? = some b → w.plan.routes[r]? = some route → q.route = r →
      SplitsTrip w.plan w.volumes settings.provider route b job location duration before after load
        q → Ends (commit p q) (fun _ => J) E w) :
    Ends (insertBase p settings r) (fun _ g => J g.work) (fun e g => E e g.work) f := by
  simp only [insertBase, onWork, Work.onVolumes, ends_bind, ends_updatePlan, ends_get, ends_within]
  refine ⟨fun pooled pool => ⟨fun fresh refreshed => ?_, fun e failed =>
    routes pooled e pool failed⟩, bases⟩
  refine (counts pooled fresh pool refreshed).mono (fun _ volumes holds => ?_)
    fun _ _ failed => failed
  split
  · exact fails _ _ holds
  · rename_i b lowest
    simp only [ends_bind, ends_ofResult]
    refine ⟨fun route found => ⟨fun departure _ => ⟨fun place searched => ?_,
      fun e _ => fails _ e holds⟩, fun e _ => fails _ e holds⟩, fun e _ => fails _ e holds⟩
    cases place with
    | none => exact holds
    | some q =>
        have foundRoute := Plan.route_eq_ok.mp found
        obtain ⟨route_eq, job, location, duration, before, after, load, splits⟩ :=
          Survey.firstPlace_splits (s := settings.survey p fresh volumes true) foundRoute rfl
            searched
        simp only [ends_bind, ends_within, ends_pure]
        exact commits _ q route b job location duration before after load holds lowest foundRoute
          route_eq splits

end Fill

end Haulage

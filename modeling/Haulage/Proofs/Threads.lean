/-
Module: Haulage.Proofs.Threads
Purpose: Passes whose routes are evaluated side by side.  Such a pass ends as one that evaluates
  them in turn, although it may find the pool exhausted at another job.  Only where a route refuses
  and one behind it has no answer do the two fail of different things.
Main exports: Settings.withThreads, Fill.FindAlike, Fill.Overtaken, Fill.bestOffer_agrees,
  Fill.InStep, Fill.TurnParts, Fill.insertJob_alike, Fill.PassParts, Fill.SameRun, passes_alike
-/
import Haulage.Proofs.Bounds
import Haulage.Proofs.Turn

namespace Haulage

open Attempt

/-! ### An exhausted pool -/

theorem BasePool.isExhausted_iff {pool : BasePool} :
    pool.IsExhausted ↔ ∀ b, pool.isFree b = false := by
  rw [IsExhausted, lowestFree?, List.find?_eq_none]
  constructor
  · intro taken b
    by_cases inside : b < pool.size
    · simpa using taken b (List.mem_range.mpr inside)
    · have beyond : pool.entries[b]? = none := List.getElem?_eq_none (Nat.le_of_not_lt inside)
      rw [isFree, beyond]
      rfl
  · intro taken b _
    simp [taken b]

section

variable {α : Type} {plan next : Plan α}

/-- No change of a proposal frees a base. -/
theorem Proposal.applyChange_isExhausted {change : Change} (exhausted : plan.pool.IsExhausted)
    (done : applyChange plan change = .ok next) : next.pool.IsExhausted := by
  cases change with
  | insert r position stop =>
      cases stop with
      | destination job =>
          obtain ⟨route, _, _, _, rfl⟩ := Plan.insertStop_destination.mp done
          exact exhausted
      | base b =>
          obtain ⟨route, _, _, free, rfl⟩ := Plan.insertStop_base.mp done
          rw [BasePool.isExhausted_iff.mp exhausted b] at free
          cases free
  | place b location duration =>
      obtain ⟨_, rfl⟩ := Plan.placeBase_eq_ok.mp done
      rw [BasePool.isExhausted_iff] at exhausted ⊢
      simpa using exhausted
  | switch r vehicle departure =>
      obtain ⟨route, _, equal⟩ := bind_eq_ok.mp done
      cases equal
      exact exhausted

variable [Quantity α]

/-- Taking up a proposal frees no base. -/
theorem Work.commit_isExhausted {p : Problem α} {q : Proposal} {w : Work α}
    (exhausted : w.plan.pool.IsExhausted) :
    Ends (Fill.commit p q) (fun _ next => next.plan.pool.IsExhausted)
      (fun _ next => next.plan.pool.IsExhausted) w := by
  refine commit_keeps (fun plan => plan.pool.IsExhausted) exhausted
    (fun plan fresh holds refreshed => ?_) ?_
  · obtain ⟨_, pool, _⟩ := Plan.refreshRoute_keeps refreshed
    rw [pool]
    exact holds
  · refine Ends.forM (fun plan : Plan α => plan.pool.IsExhausted) (fun change _ plan holds => ?_)
      exhausted
    simp only [ends_bind, ends_get, ends_ofResult, ends_set]
    exact ⟨fun next done => Proposal.applyChange_isExhausted holds done, fun _ _ => holds⟩

end

/-! ### Choices that agree -/

namespace Fill

open Survey

/-- Two choices of the same offer.  Only one of them may have missed a base, if there is none. -/
def Choice.Agrees (pool : BasePool) (c other : Choice Rat) : Prop :=
  other.best = c.best ∧ (other.poolExhausted = c.poolExhausted ∨ pool.IsExhausted)

/-- A search and another one that chooses the same offer, or fails alike. -/
def FindAlike (pool : BasePool) (x y : Except Failure (Choice Rat)) : Prop :=
  (∃ c other, x = .ok c ∧ y = .ok other ∧ c.Agrees pool other) ∨
    ∃ e, x = .error e ∧ y = .error e

/-- Of some routes one is refused an answer, when it is asked for what is cheaper than the routes in
front of it have offered.  The first route that has no answer, when it is asked for any offer, lies
behind. -/
def Overtaken (s t : Survey Rat) (job : Nat) (c : Choice Rat) (routes : List Nat)
    (reason : Refusal) (fault : Fault) : Prop :=
  ∃ before r between later behind d, routes = before ++ r :: (between ++ later :: behind) ∧
    chooseInTurn s job c before = .ok d ∧
    s.cheapestOnRoute job (d.best.map (·.cost)) r = .error (.refused reason) ∧
    reason ≠ .poolExhausted ∧
    (∀ i ∈ before ++ r :: between, ∀ cause, t.cheapestOnRoute job none i ≠ .error (.fault cause)) ∧
    t.cheapestOnRoute job none later = .error (.fault fault)

variable {settings : Settings Rat} {threads : Threads} {p : Problem Rat} {f g : Fill Rat}
  {s : Survey Rat} {pool : BasePool} {job : Nat} {allows : Bool} {c other : Choice Rat}

/-- An answer that found nothing leaves the best offer as it is. -/
theorem Choice.consider_findsNothing {answer : Except Failure (Option (Offer Rat))}
    (nothing : FindsNothing answer) :
    ∃ d, c.consider answer = .ok d ∧ d.best = c.best := by
  rcases nothing with rfl | rfl
  · exact ⟨c, rfl, rfl⟩
  · exact ⟨_, rfl, rfl⟩

/-- What does not undercut the best offer so far need not be found. -/
theorem Choice.consider_cut (answer : Except Failure (Option (Offer Rat))) :
    c.consider (answer.map (Bound.cut (c.best.map Offer.cost) Offer.cost)) = c.consider answer := by
  rcases answer with e | _ | offer
  · rfl
  · rfl
  · cases best : c.best with
    | none => rfl
    | some leader =>
        by_cases better : offer.cost < leader.cost
        · simp [Except.map, Bound.cut_some, better]
        · simp [Except.map, Bound.cut_some, better, consider, best]

/-- A search ends only at a failure, and not at the lack of a base. -/
theorem Choice.consider_eq_error {answer : Except Failure (Option (Offer Rat))} {e : Failure}
    (ends : c.consider answer = .error e) : answer = .error e ∧ e ≠ .refused .poolExhausted := by
  rcases answer with (reason | fault) | _ | offer
  · cases reason with
    | poolExhausted => cases ends
    | _ =>
        cases ends
        exact ⟨rfl, by simp⟩
  · cases ends
    exact ⟨rfl, by simp⟩
  · cases ends
  · cases ends

/-- Choices that agree, agree after the same answer, or fail with it. -/
theorem Choice.Agrees.consider (agrees : c.Agrees pool other)
    (answer : Except Failure (Option (Offer Rat))) :
    FindAlike pool (c.consider answer) (other.consider answer) := by
  obtain ⟨best, flags⟩ := agrees
  rcases answer with e | _ | offer
  · cases e with
    | fault fault => exact .inr ⟨_, rfl, rfl⟩
    | refused reason =>
        cases reason with
        | poolExhausted => exact .inl ⟨_, _, rfl, rfl, best, .inl rfl⟩
        | _ => exact .inr ⟨_, rfl, rfl⟩
  · exact .inl ⟨_, _, rfl, rfl, best, flags⟩
  · refine .inl ⟨_, _, rfl, rfl, ?_⟩
    rw [best]
    split
    · exact ⟨rfl, flags⟩
    · exact ⟨best, flags⟩

/-- Choices that agree, agree after answers that tally below the best offer, or fail with them. -/
theorem Choice.Agrees.consider_tallies (agrees : c.Agrees pool other)
    {x y : Except Failure (Option (Offer Rat))}
    (tallies : Tallies pool x (y.map (Bound.cut (c.best.map Offer.cost) Offer.cost))) :
    FindAlike pool (c.consider x) (other.consider y) := by
  have uncut := other.consider_cut y
  rw [agrees.1] at uncut
  rw [← uncut]
  rcases tallies with rfl | ⟨exhausted, here, there⟩
  · exact agrees.consider (y.map _)
  · obtain ⟨d, first, best⟩ := c.consider_findsNothing here
    obtain ⟨d', second, best'⟩ := other.consider_findsNothing there
    exact .inl ⟨d, d', first, second, best'.trans (agrees.1.trans best.symm), .inr exhausted⟩

/-- What is made of an answer that is not looked at before the others are there: a fault ends the
search at once, and any other answer is kept. -/
def IsKept (answer : Except Failure (Option (Offer Rat)))
    (asked : Except Failure (Except Failure (Option (Offer Rat)))) : Prop :=
  (∃ fault, answer = .error (.fault fault) ∧ asked = .error (.fault fault)) ∨
    (∀ fault, answer ≠ .error (.fault fault)) ∧ asked = .ok answer

/-- Only a fault keeps the answers from being there, and it is that of the first route which has no
answer. -/
theorem split_of_asked {answer : Nat → Except Failure (Option (Offer Rat))}
    {ask : Nat → Except Failure (Except Failure (Option (Offer Rat)))}
    (keeps : ∀ r, IsKept (answer r) (ask r)) {routes : List Nat} {e : Failure}
    (failed : routes.mapM ask = .error e) :
    ∃ before r after fault, routes = before ++ r :: after ∧
      (∀ i ∈ before, ∀ cause, answer i ≠ .error (.fault cause)) ∧
      answer r = .error (.fault fault) ∧ e = .fault fault := by
  obtain ⟨before, r, after, rfl, answered, fails⟩ := split_of_mapM_eq_error failed
  rcases keeps r with ⟨fault, faults, asked⟩ | ⟨_, asked⟩
  · cases fails.symm.trans asked
    refine ⟨before, r, after, fault, rfl, fun i member => ?_, faults, rfl⟩
    obtain ⟨_, sound⟩ := answered i member
    rcases keeps i with ⟨_, _, unsound⟩ | ⟨noFault, _⟩
    · cases sound.symm.trans unsound
    · exact noFault
  · cases fails.symm.trans asked

/-- A route in front that answers does not keep the ones behind it from being overtaken. -/
theorem Overtaken.cons {t : Survey Rat} {d : Choice Rat} {r : Nat} {rest : List Nat}
    {reason : Refusal} {fault : Fault} (overtaken : Overtaken s t job d rest reason fault)
    (considered : c.consider (s.cheapestOnRoute job (c.best.map (·.cost)) r) = .ok d)
    (sound : ∀ cause, t.cheapestOnRoute job none r ≠ .error (.fault cause)) :
    Overtaken s t job c (r :: rest) reason fault := by
  obtain ⟨before, i, between, later, behind, last, rfl, chosen, refused, lasting, others, faults⟩ :=
    overtaken
  refine ⟨r :: before, i, between, later, behind, last, rfl, ?_, refused, lasting,
    List.forall_mem_cons.mpr ⟨sound, others⟩, faults⟩
  rw [chooseInTurn, considered]
  exact chosen

/-- Routes that are asked in turn, each below the best offer so far, and routes that are all asked
before their answers are compared. -/
theorem chooseInTurn_agrees (agree : s.allowsNewTrips = allows ∨ s.plan.pool.IsExhausted)
    {ask : Nat → Except Failure (Except Failure (Option (Offer Rat)))}
    (keeps : ∀ r, IsKept ({ s with allowsNewTrips := allows }.cheapestOnRoute job none r) (ask r))
    (routes : List Nat) (agrees : c.Agrees s.plan.pool other) :
    FindAlike s.plan.pool (chooseInTurn s job c routes)
        (routes.mapM ask >>= fun answers => answers.foldlM Choice.consider other) ∨
      ∃ reason fault, Overtaken s { s with allowsNewTrips := allows } job c routes reason fault ∧
        chooseInTurn s job c routes = .error (.refused reason) ∧
        (routes.mapM ask >>= fun answers => answers.foldlM Choice.consider other) =
          .error (.fault fault) := by
  induction routes generalizing c other with
  | nil => exact .inl (.inl ⟨c, other, rfl, rfl, agrees⟩)
  | cons r rest inductionHypothesis =>
      have tallies : Tallies s.plan.pool (s.cheapestOnRoute job (c.best.map Offer.cost) r) _ :=
        cheapestOnRoute_tallies agree
      have considered := agrees.consider_tallies tallies
      rw [chooseInTurn, List.mapM_cons, bind_assoc]
      rcases keeps r with ⟨fault, faults, asked⟩ | ⟨sound, asked⟩
      · obtain ⟨_, _, _, second, _⟩ | ⟨e, first, second⟩ := considered
        · rw [faults] at second
          cases second
        · rw [faults] at second
          cases second
          rw [first, asked]
          exact .inl (.inr ⟨_, rfl, rfl⟩)
      · rw [asked]
        simp only [bind_assoc, pure_bind, List.foldlM_cons]
        show FindAlike s.plan.pool _ (rest.mapM ask >>= fun answers =>
            other.consider _ >>= fun next => answers.foldlM Choice.consider next) ∨
          ∃ reason fault, _ ∧ _ ∧ (rest.mapM ask >>= fun answers =>
            other.consider _ >>= fun next => answers.foldlM Choice.consider next) = _
        obtain ⟨d, d', first, second, agreesNow⟩ | ⟨e, first, second⟩ := considered
        · rw [first, second]
          refine (inductionHypothesis agreesNow).imp_right ?_
          rintro ⟨reason, fault, overtaken, ends⟩
          exact ⟨reason, fault, overtaken.cons first sound, ends⟩
        · -- This route refuses, but the routes behind it are asked before anyone looks at that.
          cases behind : rest.mapM ask with
          | ok answers =>
              rw [first, second]
              exact .inl (.inr ⟨e, rfl, rfl⟩)
          | error other =>
              obtain ⟨between, later, after, fault, rfl, others, faults, rfl⟩ :=
                split_of_asked keeps behind
              obtain ⟨fails, lasting⟩ := Choice.consider_eq_error first
              cases e with
              | fault own => exact absurd (Choice.consider_eq_error second).1 (sound own)
              | refused reason =>
                  refine .inr ⟨reason, fault, ?_, by rw [first]; rfl, rfl⟩
                  exact ⟨[], r, between, later, after, c, rfl, rfl, fails,
                    fun same => lasting (congrArg Failure.refused same),
                    List.forall_mem_cons.mpr ⟨sound, others⟩, faults⟩

/-- The best offer of all routes is the same however they are asked, unless one that refuses is
overtaken. -/
theorem bestOffer_agrees (parallel : threads.isParallel = true)
    (agree : s.allowsNewTrips = allows ∨ s.plan.pool.IsExhausted) :
    FindAlike s.plan.pool (bestOffer s .single job)
        (bestOffer { s with allowsNewTrips := allows } threads job) ∨
      ∃ reason fault, Overtaken s { s with allowsNewTrips := allows } job ⟨none, false⟩
          s.plan.routeIds reason fault ∧
        bestOffer s .single job = .error (.refused reason) ∧
        bestOffer { s with allowsNewTrips := allows } threads job = .error (.fault fault) := by
  rw [bestOffer, bestOffer, if_pos parallel, if_neg (by decide)]
  refine chooseInTurn_agrees agree (fun r => ?_) _ ⟨rfl, .inl rfl⟩
  generalize { s with allowsNewTrips := allows }.cheapestOnRoute job none r = answer
  rcases answer with (reason | fault) | found
  · refine .inr ⟨fun fault same => ?_, rfl⟩
    cases same
  · exact .inl ⟨fault, rfl, rfl⟩
  · refine .inr ⟨fun fault same => ?_, rfl⟩
    cases same

/-! ### Passes side by side -/

/-- Passes that have done the same so far.  They may differ in whether they open new trips only if
there is no base left for one. -/
structure InStep (f g : Fill Rat) : Prop where
  work_eq : g.work = f.work
  commits_eq : g.commits = f.commits
  flags : f.allowsNewTrips = g.allowsNewTrips ∨ f.work.plan.pool.IsExhausted

theorem InStep.refl (f : Fill Rat) : InStep f f := ⟨rfl, rfl, .inl rfl⟩

end Fill

/-! ### Settings with other threads -/

namespace Settings

section

variable {α : Type}

/-- The same settings with other threads. -/
def withThreads (settings : Settings α) (threads : Threads) : Settings α :=
  { settings with parameters := { settings.parameters with threads := threads } }

variable (settings : Settings α) (threads : Threads)

@[simp] theorem threads_withThreads :
    (settings.withThreads threads).parameters.threads = threads := rfl

@[simp] theorem order_withThreads :
    (settings.withThreads threads).parameters.order = settings.parameters.order := rfl

@[simp] theorem seed_withThreads :
    (settings.withThreads threads).parameters.seed = settings.parameters.seed := rfl

@[simp] theorem isStopped_withThreads :
    (settings.withThreads threads).isStopped = settings.isStopped := rfl

@[simp] theorem survey_withThreads :
    (settings.withThreads threads).survey = settings.survey := rfl

variable [Quantity α]

/-- The placement of bases does not look at the threads. -/
theorem placeBases_withThreads (p : Problem α) (r : Nat) (s : PlacementState α)
    (stops : List Stop) :
    Work.placeBases p (settings.withThreads threads) r s stops =
      Work.placeBases p settings r s stops := by
  induction stops generalizing s with
  | nil => rfl
  | cons stop rest inductionHypothesis =>
      cases stop with
      | destination job => simp only [Work.placeBases, inductionHypothesis]
      | base b =>
          simp only [Work.placeBases, inductionHypothesis]
          rfl

theorem placeRoutes_withThreads (p : Problem α) (routes : List Nat) :
    Work.placeRoutes p (settings.withThreads threads) routes =
      Work.placeRoutes p settings routes := by
  induction routes with
  | nil => rfl
  | cons r rest inductionHypothesis =>
      simp only [Work.placeRoutes, Work.placeRoute, placeBases_withThreads, inductionHypothesis]

theorem placeAll_withThreads (p : Problem α) :
    Work.placeAll p (settings.withThreads threads) = Work.placeAll p settings := by
  simp only [Work.placeAll, placeRoutes_withThreads]

end

end Settings

namespace Fill

variable {settings : Settings Rat} {threads : Threads} {p : Problem Rat} {f g : Fill Rat}
  {job : Nat} {c other : Choice Rat}

/-- Passes that are in step take up a proposal alike. -/
theorem commit_alike {q : Proposal} (inStep : InStep f g) :
    Alike InStep (onWork (commit p q) f) (onWork (commit p q) g) := by
  refine Alike.within inStep.work_eq ?_
  rcases inStep.flags with same | none
  · exact ends_of_forall (fun _ _ => ⟨rfl, inStep.commits_eq, .inl same⟩)
      fun _ _ => ⟨rfl, inStep.commits_eq, .inl same⟩
  · exact (Work.commit_isExhausted none).mono
      (fun _ _ exhausted => ⟨rfl, inStep.commits_eq, .inr exhausted⟩)
      fun _ _ exhausted => ⟨rfl, inStep.commits_eq, .inr exhausted⟩

/-- What a turn does with a choice: it notes that a base was missed, and takes up the offer. -/
def takeUp {α : Type} [Quantity α] (p : Problem α) (choice : Choice α) :
    Attempt (Fill α) Unit := do
  modify fun f => { f with allowsNewTrips := f.allowsNewTrips && !choice.poolExhausted }
  match choice.best with
  | none => pure ()
  | some offer => do
    onWork (commit p offer.proposal)
    modify fun f => { f with commits := ⟨offer, f.work.plan.unassigned.length⟩ :: f.commits }

/-- Choices that agree are taken up alike. -/
theorem takeUp_alike (inStep : InStep f g) (agrees : c.Agrees f.work.plan.pool other) :
    Alike InStep (takeUp p c f) (takeUp p other g) := by
  obtain ⟨best, missed⟩ := agrees
  have noted : InStep { f with allowsNewTrips := f.allowsNewTrips && !c.poolExhausted }
      { g with allowsNewTrips := g.allowsNewTrips && !other.poolExhausted } := by
    refine ⟨inStep.work_eq, inStep.commits_eq, ?_⟩
    rcases inStep.flags with same | none
    · exact missed.imp_left fun alsoSame => by simp only [same, alsoSame]
    · exact .inr none
  unfold takeUp
  rw [modify_bind, modify_bind, best]
  cases c.best with
  | none => exact ⟨rfl, noted⟩
  | some offer =>
      refine Alike.bind (commit_alike noted) (fun _ _ related => related) fun _ f g related => ?_
      refine ⟨rfl, related.work_eq, ?_, related.flags⟩
      simp only [related.work_eq, related.commits_eq]

/-- A turn at which passes part that did the same so far.  For the job that it is about one route is
refused an answer, and there that ends the search.  Where all routes are asked before their answers
are looked at, a route behind it has no answer at all. -/
structure TurnParts (p : Problem Rat) (settings : Settings Rat) (job : Nat) (f g : Fill Rat)
    (marked : Plan Rat) (reason : Refusal) (fault : Fault) : Prop where
  inStep : InStep f g
  waits : f.work.plan.isUnassigned job = true
  marks : Room.markFullRoutes p f.work.plan f.work.volumes job = .ok marked
  overtaken : Overtaken (settings.survey p marked f.work.volumes f.allowsNewTrips)
    (settings.survey p marked g.work.volumes g.allowsNewTrips) job ⟨none, false⟩ marked.routeIds
    reason fault

theorem search_alike {x y : Except Failure (Choice Rat)} (inStep : InStep f g)
    (agree : FindAlike f.work.plan.pool x y) :
    Alike InStep ((ofResult x >>= takeUp p) f) ((ofResult y >>= takeUp p) g) := by
  rcases agree with ⟨c, other, rfl, rfl, agrees⟩ | ⟨e, rfl, rfl⟩
  · exact takeUp_alike inStep agrees
  · exact ⟨rfl, inStep⟩

/-- A turn in which routes are evaluated in turn, and one in which they are evaluated side by
side. -/
theorem insertJob_alike (parallel : threads.isParallel = true) (inStep : InStep f g) :
    Alike InStep (insertJob p (settings.withThreads .single) job f)
        (insertJob p (settings.withThreads threads) job g) ∨
      ∃ marked reason fault, TurnParts p settings job f g marked reason fault ∧
        insertJob p (settings.withThreads .single) job f =
          .error (.refused reason) { f with work := { f.work with plan := marked } } ∧
        insertJob p (settings.withThreads threads) job g =
          .error (.fault fault) { g with work := { g.work with plan := marked } } := by
  rcases g with ⟨work, allows, commits⟩
  obtain ⟨rfl, rfl, flags⟩ := inStep
  by_cases unassigned : f.work.plan.isUnassigned job = true
  · unfold insertJob
    rw [get_bind, get_bind, if_pos unassigned, if_pos unassigned, get_bind, get_bind]
    cases marked : Room.markFullRoutes p f.work.plan f.work.volumes job with
    | error e => exact .inl ⟨rfl, rfl, rfl, flags⟩
    | ok plan =>
        obtain ⟨ledger, rfl, _, _⟩ := Room.markFullRoutes_eq_ok marked
        let survey := settings.survey p { f.work.plan with ledger := ledger } f.work.volumes
          f.allowsNewTrips
        have agree : survey.allowsNewTrips = allows ∨ survey.plan.pool.IsExhausted := flags
        rw [ofResult_bind_of_ok rfl, ofResult_bind_of_ok rfl, set_bind, set_bind]
        rcases bestOffer_agrees parallel agree with
          agree | ⟨reason, fault, overtaken, refused, faults⟩
        · exact .inl (search_alike ⟨rfl, rfl, flags⟩ agree)
        · refine .inr ⟨_, reason, fault, ⟨⟨rfl, rfl, flags⟩, unassigned, marked, overtaken⟩, ?_⟩
          constructor
          · exact bind_of_fails (congrArg (ofResult · _) refused)
          · exact bind_of_fails (congrArg (ofResult · _) faults)
  · unfold insertJob
    rw [get_bind, get_bind, if_neg unassigned, if_neg unassigned]
    exact .inl ⟨rfl, rfl, rfl, flags⟩

/-! ### Whole passes -/

/-- Where routes are asked in turn anyway, the number of threads does not matter. -/
theorem insertJob_inTurn (inTurn : threads.isParallel = false) :
    insertJob p (settings.withThreads threads) = insertJob p (settings.withThreads .single) := by
  have same : ∀ (s : Survey Rat) job, bestOffer s threads job = bestOffer s .single job := by
    intro s job
    rw [bestOffer, bestOffer, inTurn, if_neg (by decide), if_neg (by decide)]
  funext job
  simp only [insertJob, Settings.threads_withThreads, Settings.survey_withThreads, same]

/-- Two passes over the same jobs that do the same up to the turn of one of them and part at it.
There the one that asks the routes in turn is refused, and the other one has no answer. -/
def PassParts {β : Type} (p : Problem Rat) (settings : Settings Rat) (threads : Threads)
    (jobs : List Nat) (begins : Fill Rat) (x y : EStateM.Result Failure (Fill Rat) β) : Prop :=
  ∃ before job after f g marked reason fault, jobs = before ++ job :: after ∧
    insertions p (settings.withThreads .single) before begins = .ok () f ∧
    insertions p (settings.withThreads threads) before begins = .ok () g ∧
    TurnParts p settings job f g marked reason fault ∧
    x = .error (.refused reason) { f with work := { f.work with plan := marked } } ∧
    y = .error (.fault fault) { g with work := { g.work with plan := marked } }

/-- What follows does not come about after passes have parted. -/
theorem PassParts.bind {β γ : Type} {jobs : List Nat} {begins : Fill Rat}
    {x y : Attempt (Fill Rat) β} (parts : PassParts p settings threads jobs begins (x begins)
      (y begins)) (u v : β → Attempt (Fill Rat) γ) :
    PassParts p settings threads jobs begins ((x >>= u) begins) ((y >>= v) begins) := by
  obtain ⟨before, job, after, f, g, marked, reason, fault, split, first, second, turn, refused,
    faults⟩ := parts
  exact ⟨before, job, after, f, g, marked, reason, fault, split, first, second, turn,
    bind_of_fails refused, bind_of_fails faults⟩

/-- The insertions of two passes that begin in step. -/
theorem insertions_alike (parallel : threads.isParallel = true) (jobs : List Nat)
    (begins : Fill Rat) :
    Alike InStep (insertions p (settings.withThreads .single) jobs begins)
        (insertions p (settings.withThreads threads) jobs begins) ∨
      PassParts p settings threads jobs begins
        (insertions p (settings.withThreads .single) jobs begins)
        (insertions p (settings.withThreads threads) jobs begins) := by
  -- No route is asked before the first turn, so that far the passes are one.
  have prepares : Alike InStep (prepare p begins) (prepare p begins) := .of_eq InStep.refl
  rcases prepares.cases with ⟨_, u, v, here, there, inStep⟩ | ⟨e, u, v, here, there, inStep⟩
  · have unfolds (threads : Threads) (given : List Nat) :
        insertions p (settings.withThreads threads) given begins =
          given.forM (insertJob p (settings.withThreads threads)) u := bind_of_answers here
    cases here.symm.trans there
    have turns : ∀ job f g, InStep f g →
        Alike InStep (insertJob p (settings.withThreads .single) job f)
          (insertJob p (settings.withThreads threads) job g) ∨ _ :=
      fun job f g => insertJob_alike parallel
    simp only [PassParts, unfolds]
    refine (forM_alike_or turns ?_ inStep).imp_right ?_
    · rintro job f g ⟨marked, reason, fault, _, refused, faults⟩
      exact ⟨⟨_, _, refused⟩, _, _, faults⟩
    · rintro ⟨before, job, after, f, g, split, first, second, _,
        ⟨marked, reason, fault, turn, refused, faults⟩, same, sameThere⟩
      exact ⟨before, job, after, f, g, marked, reason, fault, split, first, second, turn,
        same.trans refused, sameThere.trans faults⟩
  · refine .inl ?_
    unfold insertions
    rw [bind_of_fails here, bind_of_fails there]
    exact ⟨rfl, inStep⟩

/-- Passes that leave the same plan, volumes and offers. -/
def SameRun (f g : Fill Rat) : Prop := g.work = f.work ∧ g.commits = f.commits

/-- Of a pass only the insertions go by the threads. -/
theorem insertJobs_withThreads (p : Problem Rat) (settings : Settings Rat) (threads : Threads)
    (jobs : List Nat) :
    insertJobs p (settings.withThreads threads) jobs = (do
      insertions p (settings.withThreads threads) (if settings.isStopped then [] else jobs)
      let _ ← onWork (Work.placeAll p settings)
      return (← get).work.plan.unassigned) := by
  rw [insertJobs_eq_insertions, Settings.placeAll_withThreads, Settings.isStopped_withThreads]

theorem insertJobs_alike (p : Problem Rat) (settings : Settings Rat) (threads : Threads)
    (jobs : List Nat) (begins : Fill Rat) :
    Alike SameRun (insertJobs p (settings.withThreads .single) jobs begins)
        (insertJobs p (settings.withThreads threads) jobs begins) ∨
      PassParts p settings threads jobs begins
        (insertJobs p (settings.withThreads .single) jobs begins)
        (insertJobs p (settings.withThreads threads) jobs begins) := by
  rw [insertJobs_withThreads, insertJobs_withThreads]
  cases parallel : threads.isParallel with
  | false =>
      have same : insertions p (settings.withThreads threads) =
          insertions p (settings.withThreads .single) := by
        funext given
        simp only [insertions, insertJob_inTurn parallel]
      rw [same]
      exact .inl (Alike.of_eq fun _ => ⟨rfl, rfl⟩)
  | true =>
      rcases insertions_alike parallel (if settings.isStopped then [] else jobs) begins with
        alike | parts
      · refine .inl (Alike.bind alike (fun _ _ related =>
          ⟨related.work_eq, related.commits_eq⟩) fun _ f g related => ?_)
        have places : Alike SameRun (onWork (Work.placeAll p settings) f)
            (onWork (Work.placeAll p settings) g) :=
          Alike.within related.work_eq (ends_of_forall (fun _ _ => ⟨rfl, related.commits_eq⟩)
            fun _ _ => ⟨rfl, related.commits_eq⟩)
        apply Alike.bind places fun _ _ same => same
        intro _ f g same
        rw [get_bind, get_bind, same.1]
        exact ⟨rfl, same⟩
      · refine .inr ?_
        by_cases stopped : settings.isStopped = true
        · rw [if_pos stopped] at parts
          obtain ⟨before, job, after, _, _, _, _, _, split, _⟩ := parts
          simp at split
        · rw [if_neg stopped] at parts ⊢
          exact parts.bind _ _

theorem recreate_alike (p : Problem Rat) (settings : Settings Rat) (threads : Threads)
    (begins : Fill Rat) :
    Alike SameRun (recreate p (settings.withThreads .single) begins)
        (recreate p (settings.withThreads threads) begins) ∨
      ∃ jobs next, settings.parameters.order.sort p (.ofSeed settings.parameters.seed)
          begins.work.plan.unassigned = .ok (jobs, next) ∧
        PassParts p settings threads jobs begins
          (recreate p (settings.withThreads .single) begins)
          (recreate p (settings.withThreads threads) begins) := by
  unfold recreate
  rw [get_bind, get_bind]
  simp only [Settings.order_withThreads, Settings.seed_withThreads]
  cases sorted : settings.parameters.order.sort p (.ofSeed settings.parameters.seed)
      begins.work.plan.unassigned with
  | error e => exact .inl ⟨rfl, rfl, rfl⟩
  | ok jobs =>
      refine (insertJobs_alike p settings threads jobs.1 begins).imp_right fun parts => ?_
      exact ⟨jobs.1, jobs.2, rfl, parts⟩

end Fill

/-- However the routes are evaluated, a pass answers the same or fails the same way, and leaves the
same plan, volumes and offers.  There is one exception: at the turn of a job one route is refused an
answer, and a later one, which only those passes ask that evaluate the routes side by side, has none
at all. -/
theorem passes_alike (p : Problem Rat) (settings : Settings Rat) (threads : Threads)
    (plan : Plan Rat) :
    let inTurn := settings.withThreads .single
    let sideBySide := settings.withThreads threads
    let begins := Fill.start p plan
    (∀ jobs, Alike Fill.SameRun (Fill.insertJobs p inTurn jobs begins)
        (Fill.insertJobs p sideBySide jobs begins) ∨
      Fill.PassParts p settings threads jobs begins (Fill.insertJobs p inTurn jobs begins)
        (Fill.insertJobs p sideBySide jobs begins)) ∧
    (Alike Fill.SameRun (Fill.recreate p inTurn begins) (Fill.recreate p sideBySide begins) ∨
      ∃ jobs next, settings.parameters.order.sort p (.ofSeed settings.parameters.seed)
          plan.unassigned = .ok (jobs, next) ∧
        Fill.PassParts p settings threads jobs begins (Fill.recreate p inTurn begins)
          (Fill.recreate p sideBySide begins)) :=
  ⟨fun jobs => Fill.insertJobs_alike p settings threads jobs _,
    Fill.recreate_alike p settings threads _⟩

/-! ### A fault behind a refusal -/

/-- Two jobs and a site along a line.  The first job wants to be served after some time, and the
second vehicle would need longer to get there than any duration.  To the second job it knows a
shorter way. -/
def twoVans : Problem Rat where
  points := #[⟨0, 0⟩, ⟨1, 0⟩, ⟨2, 0⟩, ⟨3, 0⟩]
  destinations := #[⟨"a", 1, ⟨[1]⟩, .zero, ⟨some .epoch, none⟩⟩, ⟨"b", 2, ⟨[5]⟩, .zero, .always⟩]
  vehicles := #[⟨"v", 0, none, ⟨[10]⟩, none, some 0, true, none, none⟩,
    ⟨"w", 1, none, ⟨[10]⟩, none, some 0, true, none, none⟩]
  profiles :=
    let rows : List (List Rat) := [[0, 1, 2, 3], [1, 0, 1, 2], [2, 1, 0, 1], [3, 2, 1, 0]]
    let short : List (List Rat) := [[0, 1, 1, 3], [1, 0, 1, 2], [2, 1, 0, 1], [3, 2, 1, 0]]
    let times : List (List Rat) := [[0, 10 ^ 19, 1, 3], [1, 0, 1, 2], [2, 1, 0, 1], [3, 2, 1, 0]]
    #[⟨"p", .ofRows rows rows none⟩, ⟨"q", .ofRows short times none⟩]
  sites := [⟨3, none⟩]
  depotCosts := #[0, 1, 3 / 2, 3]
  longestLeg := 1

/-- Sends a vehicle that is half full to the site, and any other one back to where it starts. -/
def siteWhenHalfFull : LocationProvider Rat :=
  ⟨[0, 3], fun query => .ok (if 50 ≤ query.fillPercent then [3] else [0])⟩

/-- After a pass that put the second job on the second vehicle, the first vehicle is refused, as it
would be sent to unload where no volumes are kept.  In turn, the pass ends there; side by side, the
second vehicle is evaluated as well, and has no answer. -/
theorem passes_differ_twoVans :
    let settings := { Settings.forProblem twoVans .standard with provider := siteWhenHalfFull }
    ∃ plan, Plan.reach twoVans [.insertJobs settings [1]] = .ok plan ∧
      plan.itineraries = [(0, []), (1, [.destination 1, .base 0])] ∧
      answer (Fill.insertJobs twoVans (settings.withThreads .single) [0] (.start twoVans plan)) =
        .error (.refused (.untrackedLocation 0)) ∧
      answer (Fill.insertJobs twoVans (settings.withThreads (.multi 2)) [0]
        (.start twoVans plan)) = .error (.fault .unusableTravelTime) := by
  intro settings
  have run : (Plan.reach twoVans [.insertJobs settings [1]]).map (fun plan =>
        (plan.itineraries,
          answer (Fill.insertJobs twoVans (settings.withThreads .single) [0] (.start twoVans plan)),
          answer (Fill.insertJobs twoVans (settings.withThreads (.multi 2)) [0]
            (.start twoVans plan)))) =
      .ok ([(0, []), (1, [.destination 1, .base 0])], .error (.refused (.untrackedLocation 0)),
        .error (.fault .unusableTravelTime)) := by
    decide +kernel
  cases reached : Plan.reach twoVans [.insertJobs settings [1]] with
  | error e =>
      rw [reached] at run
      cases run
  | ok plan =>
      rw [reached] at run
      obtain ⟨routes, run⟩ := Prod.mk.inj (Except.ok.inj run)
      obtain ⟨inTurn, sideBySide⟩ := Prod.mk.inj run
      exact ⟨plan, rfl, routes, inTurn, sideBySide⟩

end Haulage

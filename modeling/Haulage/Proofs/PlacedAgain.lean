/-
Module: Haulage.Proofs.PlacedAgain
Purpose: Placing all bases a second time.  Where of every route only first trips were removed, the
  second placement changes nothing.  Where a trip was removed behind one that was placed, the base
  between them had been placed with a view to a stop that is gone, and it may move.
Main exports: Work.Repeats, placeAll_again, placeAll_moves_base
-/
import Haulage.Proofs.Revisit
import Haulage.Proofs.Session
import Haulage.Proofs.Turn
import Haulage.Proofs.Unloading

namespace Haulage

variable {α : Type} [Quantity α]

open Attempt Plan

/-! ### The visits of all routes -/

omit [Quantity α] in
theorem Volumes.clear_clear (vs : Volumes α) : vs.clear.clear = vs.clear := by
  simp [Volumes.clear]

/-- A placement under way that has visited some routes, and that a second one would repeat. -/
structure Work.Repeats (p : Problem α) (settings : Settings α) (jobs bases : Nat) (begins : Work α)
    (visited : List Nat) (w : Work α) : Prop where
  conserved : Conserved jobs bases w.plan
  size_eq : w.plan.routes.length = begins.plan.routes.length
  cleared : w.volumes.clear = begins.volumes.clear
  untouched : ∀ r, r ∉ visited → w.plan.itineraries[r]? = begins.plan.itineraries[r]?
  again : (∀ r ∈ visited, begins.plan.KeepsLast r w.plan) →
    ∀ other, (∀ r ∈ visited, SameRoute r w.plan other) →
      Work.placeRoutes p settings visited ⟨other, begins.volumes⟩ = .ok [] ⟨other, w.volumes⟩

section

variable {p : Problem α} {settings : Settings α} {jobs bases r : Nat} {visited : List Nat}
  {begins w middle last : Work α}

namespace Work

/-- The visits of some routes remove nothing where none of them does. -/
theorem placeRoutes_cons_stays {rest : List Nat} :
    placeRoutes p settings (r :: rest) w = .ok [] last ↔
      ∃ middle, placeRoute p settings r w = .ok [] middle ∧
        placeRoutes p settings rest middle = .ok [] last := by
  rw [placeRoutes]
  simp only [bind_answers]
  constructor
  · rintro ⟨jobs, middle, here, later, after, there, equal⟩
    obtain ⟨none, rfl⟩ : jobs ++ later = [] ∧ after = last := by
      simpa [pure, EStateM.pure] using equal
    obtain ⟨rfl, rfl⟩ := List.append_eq_nil_iff.mp none
    exact ⟨middle, here, there⟩
  · rintro ⟨middle, here, there⟩
    exact ⟨[], middle, here, [], last, there, rfl⟩

theorem placeRoutes_append_stays (first : placeRoutes p settings visited w = .ok [] middle)
    (second : placeRoute p settings r middle = .ok [] last) :
    placeRoutes p settings (visited ++ [r]) w = .ok [] last := by
  induction visited generalizing w with
  | nil =>
      cases first
      exact placeRoutes_cons_stays.mpr ⟨last, second, rfl⟩
  | cons other visited inductionHypothesis =>
      obtain ⟨next, here, there⟩ := placeRoutes_cons_stays.mp first
      exact placeRoutes_cons_stays.mpr ⟨next, here, inductionHypothesis there⟩

/-- One more route is visited. -/
theorem Repeats.visit (repeats : Repeats p settings jobs bases begins visited w)
    (fresh : r ∉ visited) (revisits : Revisits p settings jobs bases r w last) :
    Repeats p settings jobs bases begins (visited ++ [r]) last := by
  have changes := revisits.changes
  have apart : ∀ i ∈ visited, r ≠ i := by
    rintro i member rfl
    exact fresh member
  refine ⟨revisits.conserved, changes.size_eq.trans repeats.size_eq,
    revisits.cleared.trans repeats.cleared, fun i outside => ?_, fun keeps other same => ?_⟩
  · have notSame : r ≠ i := by
      rintro rfl
      exact outside (List.mem_append_right _ List.mem_cons_self)
    rw [changes.others notSame]
    exact repeats.untouched i fun member => outside (List.mem_append_left _ member)
  · have earlier : placeRoutes p settings visited ⟨other, begins.volumes⟩ =
        .ok [] ⟨other, w.volumes⟩ := by
      refine repeats.again (fun i member stops now before after => ?_) other fun i member =>
        (changes.sameRoute (apart i member)).trans (same i (List.mem_append_left _ member))
      have afterNow := (changes.toChangesOnly.visits (apart i member)).mpr after
      exact keeps i (List.mem_append_left _ member) stops now before afterNow
    have own : placeRoute p settings r ⟨other, w.volumes⟩ = .ok [] ⟨other, last.volumes⟩ := by
      refine revisits.again (fun stops now before after => ?_) other
        (same r (List.mem_append_right _ List.mem_cons_self))
      rw [Visits, repeats.untouched r fresh] at before
      exact keeps r (List.mem_append_right _ List.mem_cons_self) stops now before after
    exact placeRoutes_append_stays earlier own

theorem placeAll_repeats (conserved : Conserved jobs bases w.plan) :
    Ends (placeAll p settings) (fun _ last => Repeats p settings jobs bases
      { w with volumes := w.volumes.clear } w.plan.routeIds last) (fun _ _ => True) w := by
  simp only [placeAll, ends_bind, ends_modify, ends_get]
  refine placeRoutes_ends
    (Repeats p settings jobs bases { w with volumes := w.volumes.clear })
    (fun visited r later middle split repeats => ?_)
    ⟨conserved, rfl, rfl, fun _ _ => rfl, fun _ _ _ => rfl⟩
  exact (placeRoute_revisits repeats.conserved).mono
    (fun _ last revisits => repeats.visit (notMem_of_routeIds_eq split) revisits)
    fun _ _ _ => trivial

end Work

end

/-- Where of the jobs of every route a placement of all bases removed none, or only the first ones,
a second one removes nothing and leaves plan and volumes as they are. -/
theorem placeAll_again {p : Problem α} {settings : Settings α} {jobs bases : Nat}
    {w next : Work α} {removed : List Nat} (conserved : Conserved jobs bases w.plan)
    (done : Work.placeAll p settings w = .ok removed next)
    (keeps : ∀ r, w.plan.KeepsLast r next.plan) :
    Work.placeAll p settings next = .ok [] next := by
  have ends : Ends (Work.placeAll p settings) _ _ w := Work.placeAll_repeats conserved
  rw [Ends, done] at ends
  have repeats : Work.Repeats p settings jobs bases { w with volumes := w.volumes.clear }
    w.plan.routeIds next := ends
  have routes : next.plan.routeIds = w.plan.routeIds := by
    rw [routeIds, routeIds, repeats.size_eq]
  have volumes : next.volumes.clear = w.volumes.clear :=
    repeats.cleared.trans (Volumes.clear_clear _)
  show Work.placeRoutes p settings next.plan.routeIds ⟨next.plan, next.volumes.clear⟩ = _
  rw [routes, volumes]
  exact repeats.again (fun r _ => keeps r) next.plan fun r _ => .refl r next.plan

/-! ### A trip between two others -/

/-- The stops of all routes, and where each base lies. -/
structure Layout where
  itineraries : List (Nat × List Stop)
  locations : List (Option Nat)
deriving DecidableEq

def Plan.layout (plan : Plan α) : Layout :=
  ⟨plan.itineraries, (List.range plan.pool.size).map plan.pool.locationOf⟩

/-- Puts stops behind each other into a route. -/
def Plan.appendStops (plan : Plan α) (r : Nat) (stops : List Stop) : Except Failure (Plan α) :=
  stops.foldlM (fun plan stop => do plan.insertStop r (← plan.route r).length stop) plan

/-- Places all bases twice, and says what both placements remove and leave. -/
def Work.placeTwice (p : Problem α) (settings : Settings α) :
    Attempt (Work α) ((List Nat × Layout) × List Nat × Layout) := do
  let first ← Work.placeAll p settings
  let next ← get
  let second ← Work.placeAll p settings
  let last ← get
  return ((first, next.plan.layout), second, last.plan.layout)

theorem Work.placeTwice_answers {p : Problem α} {settings : Settings α} {w : Work α}
    {first second : List Nat × Layout}
    (done : answer (placeTwice p settings w) = .ok (first, second)) :
    ∃ next last, placeAll p settings w = .ok first.1 next ∧ next.plan.layout = first.2 ∧
      placeAll p settings next = .ok second.1 last ∧ last.plan.layout = second.2 := by
  obtain ⟨_, both⟩ := answer_eq_ok.mp done
  rw [placeTwice] at both
  simp only [bind_answers] at both
  rcases both with ⟨_, _, placed, _, _, got, _, _, again, _, _, gotLast, equal⟩
  cases got
  cases gotLast
  cases equal
  exact ⟨_, _, placed, rfl, again, rfl⟩

omit [Quantity α] in
theorem appendStops_conserves {jobs bases r : Nat} {plan after : Plan α} {stops : List Stop}
    (conserved : Conserved jobs bases plan) (done : plan.appendStops r stops = .ok after) :
    Conserved jobs bases after := by
  refine foldlM_keeps (Conserved jobs bases) (fun stop _ before next kept step => ?_) conserved done
  obtain ⟨_, _, inserted⟩ := bind_eq_ok.mp step
  exact Holding.insertStop kept inserted

/-- Three jobs and two sites along a line.  A site takes ten, and the second job is more than
that. -/
def threeJobs : Problem Rat where
  points := #[⟨0, 0⟩, ⟨4, 0⟩, ⟨5, 0⟩, ⟨6, 0⟩, ⟨10, 0⟩]
  destinations := #[⟨"a", 2, ⟨[3]⟩, .zero, .always⟩, ⟨"b", 0, ⟨[11]⟩, .zero, .always⟩,
    ⟨"c", 4, ⟨[3]⟩, .zero, .always⟩]
  vehicles := #[⟨"v", 0, none, ⟨[20]⟩, none, some 0, true, none, none⟩]
  profiles :=
    let rows : List (List Rat) := [[0, 4, 5, 6, 10], [4, 0, 1, 2, 6], [5, 1, 0, 1, 5],
      [6, 2, 1, 0, 4], [10, 6, 5, 4, 0]]
    #[⟨"p", .ofRows rows rows none⟩]
  sites := [⟨1, some ⟨[10]⟩⟩, ⟨3, some ⟨[10]⟩⟩]
  depotCosts := #[0, 4, 5, 6, 10]
  longestLeg := 10

/-- A route of these jobs, and what two placements leave of it. -/
theorem placeTwice_threeJobs (stops : List Stop) (first second : List Nat × Layout)
    (run : (Plan.empty threeJobs >>= fun empty => empty.appendStops 0 stops >>= fun plan =>
      (answer (Work.placeTwice threeJobs (.forProblem threeJobs .standard)
        ⟨plan, .ofSites threeJobs.sites⟩)).map fun both => (plan.itineraries, both)) =
      .ok ([(0, stops)], first, second)) :
    ∃ empty plan next last, Plan.empty threeJobs = .ok empty ∧
      empty.appendStops 0 stops = .ok plan ∧ plan.itineraries = [(0, stops)] ∧
      Work.placeAll threeJobs (.forProblem threeJobs .standard)
        ⟨plan, .ofSites threeJobs.sites⟩ = .ok first.1 next ∧ next.plan.layout = first.2 ∧
      Work.placeAll threeJobs (.forProblem threeJobs .standard) next = .ok second.1 last ∧
      last.plan.layout = second.2 := by
  simp only [bind_eq_ok] at run
  rcases run with ⟨empty, begins, plan, appended, answers⟩
  cases both : answer (Work.placeTwice threeJobs (.forProblem threeJobs .standard)
    ⟨plan, .ofSites threeJobs.sites⟩) with
  | error e =>
      rw [both] at answers
      cases answers
  | ok pair =>
      rw [both] at answers
      obtain ⟨itineraries, rfl⟩ := Prod.mk.inj (Except.ok.inj answers)
      obtain ⟨next, last, placements⟩ := Work.placeTwice_answers both
      exact ⟨empty, plan, next, last, begins, appended, itineraries, placements⟩

/-- With the large job in front, its trip is removed, and what is left stays as it is placed. -/
theorem placeAll_again_threeJobs :
    ∃ plan next, Conserved 3 3 plan ∧ Work.placeAll threeJobs (.forProblem threeJobs .standard)
        ⟨plan, .ofSites threeJobs.sites⟩ = .ok [1] next ∧ (∀ r, plan.KeepsLast r next.plan) ∧
      Work.placeAll threeJobs (.forProblem threeJobs .standard) next = .ok [] next := by
  obtain ⟨empty, plan, next, last, begins, appended, itineraries, placed, layout, _, _⟩ :=
    placeTwice_threeJobs
      [.destination 1, .base 0, .destination 0, .base 1, .destination 2, .base 2]
      ([1], ⟨[(0, [.destination 0, .base 1, .destination 2, .base 2])], [none, some 3, some 1]⟩)
      ([], ⟨[(0, [.destination 0, .base 1, .destination 2, .base 2])], [none, some 3, some 1]⟩)
      (by decide +kernel)
  have conserved : Conserved 3 3 plan := appendStops_conserves (withPool_conserves begins) appended
  have now : next.plan.itineraries = _ := congrArg Layout.itineraries layout
  have keeps : ∀ r, plan.KeepsLast r next.plan := by
    rintro r stops left ⟨vehicle, found⟩ ⟨vehicleNow, foundNow⟩
    rw [itineraries] at found
    rw [now] at foundNow
    cases r with
    | zero =>
        cases found
        cases foundNow
        exact ⟨[1], rfl⟩
    | succ r => cases found
  exact ⟨plan, next, conserved, placed, keeps, placeAll_again conserved placed keeps⟩

/-- Four jobs and two sites along a line.  The first vehicle carries only the smallest job, and the
second one comes back to where it starts.  The sites take nine and ten. -/
def fourJobs : Problem Rat where
  points := #[⟨0, 0⟩, ⟨4, 0⟩, ⟨5, 0⟩, ⟨6, 0⟩, ⟨10, 0⟩]
  destinations := #[⟨"a", 2, ⟨[5]⟩, .zero, .always⟩, ⟨"b", 4, ⟨[8]⟩, .zero, .always⟩,
    ⟨"c", 0, ⟨[4]⟩, .zero, .always⟩, ⟨"d", 1, ⟨[2]⟩, .zero, .always⟩]
  vehicles := #[⟨"v", 0, none, ⟨[2]⟩, none, some 1, false, none, none⟩,
    ⟨"w", 0, none, ⟨[8]⟩, none, some 0, true, none, none⟩]
  profiles :=
    let rows : List (List Rat) := [[0, 4, 5, 6, 10], [4, 0, 1, 2, 6], [5, 1, 0, 1, 5],
      [6, 2, 1, 0, 4], [10, 6, 5, 4, 0]]
    #[⟨"p", .ofRows rows rows none⟩]
  sites := [⟨1, some ⟨[9]⟩⟩, ⟨3, some ⟨[10]⟩⟩]
  depotCosts := #[2, 2, 3, 4, 8]
  longestLeg := 10

/-- A pass over all jobs puts three of them on trips of the second vehicle.  The placement that ends
it finds no site for the second of these trips and removes it, but the first one was sent to where
it was on the way to that trip.  A second placement sends both trips that are left elsewhere. -/
theorem placeAll_moves_base :
    let settings := Settings.forProblem fourJobs .standard
    ∃ empty f next last, Plan.empty fourJobs = .ok empty ∧
      Fill.insertions fourJobs settings [0, 1, 2, 3] (.start fourJobs empty) = .ok () f ∧
      Work.placeAll fourJobs settings f.work = .ok [1] next ∧
      Work.placeAll fourJobs settings next = .ok [] last ∧
      next.plan.layout = ⟨[(0, [.destination 3, .base 3]),
        (1, [.destination 0, .base 0, .destination 2, .base 2])],
        [some 3, none, some 1, some 1]⟩ ∧
      last.plan.layout = ⟨[(0, [.destination 3, .base 3]),
        (1, [.destination 0, .base 0, .destination 2, .base 2])],
        [some 1, none, some 3, some 1]⟩ ∧
      Fill.insertJobs fourJobs settings [0, 1, 2, 3] (.start fourJobs empty) =
        .ok next.plan.unassigned { f with work := next } := by
  intro settings
  have run : (Plan.empty fourJobs >>= fun empty => answer ((do
        Fill.insertions fourJobs settings [0, 1, 2, 3]
        Fill.onWork (Work.placeTwice fourJobs settings)) (.start fourJobs empty))) =
      .ok (([1], ⟨[(0, [.destination 3, .base 3]),
          (1, [.destination 0, .base 0, .destination 2, .base 2])],
          [some 3, none, some 1, some 1]⟩),
        ([], ⟨[(0, [.destination 3, .base 3]),
          (1, [.destination 0, .base 0, .destination 2, .base 2])],
          [some 1, none, some 3, some 1]⟩)) := by
    decide +kernel
  obtain ⟨empty, begins, done⟩ := bind_eq_ok.mp run
  obtain ⟨_, ends⟩ := answer_eq_ok.mp done
  obtain ⟨_, f, inserted, places⟩ := bind_answers.mp ends
  obtain ⟨_, both, _⟩ := within_answers.mp places
  obtain ⟨next, last, placed, layout, again, layoutNow⟩ :=
    Work.placeTwice_answers (answer_eq_ok.mpr ⟨_, both⟩)
  have pass : Fill.insertJobs fourJobs settings [0, 1, 2, 3] (.start fourJobs empty) =
      .ok next.plan.unassigned { f with work := next } := by
    rw [Fill.insertJobs_eq_insertions]
    have onWork : Fill.onWork (Work.placeAll fourJobs settings) f =
        .ok [1] { f with work := next } := within_answers.mpr ⟨next, placed, rfl⟩
    exact bind_answers.mpr ⟨(), f, inserted, bind_answers.mpr ⟨[1], _, onWork, rfl⟩⟩
  exact ⟨empty, f, next, last, begins, inserted, placed, again, layout, layoutNow, pass⟩

end Haulage

/-
Module: Haulage.Proofs.JobOrders
Purpose: A pass tries each unassigned job once.  Every order brings the jobs of a problem into a list
  with the same jobs; but for the random one it goes by a key, and jobs with equal keys stay as they
  were.
Main exports: Quantity.Ordered, JobOrder.allows, SortsStably, sortByKey_eq, JobOrder.Arranges,
  JobOrder.recreate_visits_once
-/
import Haulage.Proofs.Draws
import Haulage.Proofs.UnfailingSessions

namespace Haulage

variable {α : Type} [Quantity α]

open Attempt Plan

/-! ### Comparison -/

/-- Any two numbers can be brought into order, and the order carries over.  No law of comparison
itself is asked for, so doubles have this as well. -/
class Quantity.Ordered (α : Type) [Quantity α] : Prop where
  total (x y : α) : Quantity.totalLe x y || Quantity.totalLe y x
  trans (x y z : α) : Quantity.totalLe x y → Quantity.totalLe y z → Quantity.totalLe x z

/-- Comparing whole numbers that are taken from what is compared. -/
theorem decide_le_total {β : Type} (f : β → Int) (x y : β) :
    decide (f x ≤ f y) || decide (f y ≤ f x) := by
  simpa using Int.le_total (f x) (f y)

theorem decide_le_trans {β : Type} (f : β → Int) (x y z : β) (first : decide (f x ≤ f y))
    (second : decide (f y ≤ f z)) : decide (f x ≤ f z) :=
  decide_eq_true (Int.le_trans (of_decide_eq_true first) (of_decide_eq_true second))

/-- Doubles are compared by their bits. -/
instance : Quantity.Ordered Float := ⟨decide_le_total _, decide_le_trans _⟩

instance : Quantity.Ordered Rat where
  total x y := by simpa [Quantity.totalLe] using Rat.le_total (a := x) (b := y)
  trans _ _ _ first second :=
    decide_eq_true (Rat.le_trans (of_decide_eq_true first) (of_decide_eq_true second))

/-! ### Sorting by a key -/

/-- One list is another one brought into order: nothing is lost or repeated, nothing stands behind
what it has to precede, and what may stand either way stays as it was. -/
structure SortsStably {β : Type} (precedes : β → β → Bool) (before after : List β) : Prop where
  perm : after.Perm before
  ordered : after.Pairwise fun x y => precedes x y
  stable : ∀ x, (after.filter fun y => precedes x y && precedes y x) =
    before.filter fun y => precedes x y && precedes y x

/-- Merging sorts stably.  Those that may stand either way with `x` are a sublist of the result as
they were of the list, and there are equally many. -/
theorem sortsStably_mergeSort {β : Type} {precedes : β → β → Bool}
    (trans : ∀ x y z, precedes x y → precedes y z → precedes x z)
    (total : ∀ x y, precedes x y || precedes y x) (xs : List β) :
    SortsStably precedes xs (xs.mergeSort precedes) := by
  refine ⟨List.mergeSort_perm xs precedes, List.pairwise_mergeSort trans total xs, fun x => ?_⟩
  let ties (y : β) : Bool := precedes x y && precedes y x
  have tied : (xs.filter ties).Pairwise fun y z => precedes y z := by
    refine List.pairwise_of_forall_mem_list fun y first z second => ?_
    have before := (List.mem_filter.mp first).2
    have behind := (List.mem_filter.mp second).2
    simp only [ties, Bool.and_eq_true] at before behind
    exact trans y x z before.2 behind.1
  have kept : (xs.filter ties).Sublist ((xs.mergeSort precedes).filter ties) := by
    have sublist := (List.sublist_mergeSort trans total tied List.filter_sublist).filter ties
    rwa [List.filter_filter, show (fun y => ties y && ties y) = ties from
      funext fun y => Bool.and_self (ties y)] at sublist
  have equallyMany : (xs.filter ties).length = ((xs.mergeSort precedes).filter ties).length :=
    ((List.mergeSort_perm xs precedes).filter ties).length_eq.symm
  exact (kept.eq_of_length equallyMany).symm

/-- Sorting by a key that all jobs have is merging by that key. -/
theorem sortByKey_eq {κ : Type} {key : Nat → Except Failure κ} {le : κ → κ → Bool} {jobs : List Nat}
    (keyOf : Nat → κ) (known : ∀ job ∈ jobs, key job = .ok (keyOf job)) :
    sortByKey key le jobs = .ok (jobs.mergeSort fun a b => le (keyOf a) (keyOf b)) := by
  unfold sortByKey
  split_ifs with short
  · rcases jobs with _ | ⟨job, _ | ⟨next, rest⟩⟩
    · rw [List.mergeSort_nil]
    · rw [List.mergeSort_singleton]
    · simp only [List.length_cons] at short
      omega
  · have keyed : (jobs.mapM fun job => do .ok (← key job, job)) =
        (.ok (jobs.map fun job => (keyOf job, job)) : Except Failure (List (κ × Nat))) := by
      clear short
      induction jobs with
      | nil => rfl
      | cons job rest inductionHypothesis =>
          rw [List.mapM_cons, inductionHypothesis fun other member =>
            known other (List.mem_cons_of_mem job member), known job List.mem_cons_self]
          rfl
    have merged := List.map_mergeSort (f := fun job => (keyOf job, job))
      (r := fun a b => le (keyOf a) (keyOf b)) (s := fun a b => le a.1 b.1) (l := jobs)
      fun _ _ _ _ => rfl
    rw [keyed]
    change Except.ok (List.map _ (List.mergeSort _ _)) = _
    rw [← merged, List.map_map]
    exact congrArg Except.ok (List.map_id _)

/-! ### The keys of the orders -/

namespace Problem

/-- The demand of a job in the first dimension. -/
def firstDemand (p : Problem α) (job : Nat) : α := (p.destinations[job]?.map (·.demand.get 0)).getD 0

/-- What it costs on average to reach a job from a depot. -/
def costFromDepot (p : Problem α) (job : Nat) : α :=
  (p.destinations[job]?.bind fun d => p.depotCosts[d.location]?).getD 0

/-- The rounded cost of a job, with which the farthest jobs come last. -/
def nearness (p : Problem α) (job : Nat) : Int := Quantity.nearest (p.costFromDepot job)

/-- The rounded cost of a job the other way round, with which the farthest jobs come first. -/
def farness (p : Problem α) (job : Nat) : Int :=
  Quantity.wholePart (-(Quantity.roundAway (p.costFromDepot job)))

/-- When the window of a job closes.  A window without an end closes with the calendar. -/
def closingTime (p : Problem α) (job : Nat) : Instant :=
  (p.destinations[job]?.bind (·.window.closes)).getD .greatest

end Problem

namespace JobOrder

/-- Whether a job may stand before another one.  Where there is no key, each may. -/
def allows (order : JobOrder) (p : Problem α) (first second : Nat) : Bool :=
  match order with
  | .asGiven | .random => true
  | .demand => Quantity.totalLe (p.firstDemand first) (p.firstDemand second)
  | .far => decide (p.farness first ≤ p.farness second)
  | .close => decide (p.nearness first ≤ p.nearness second)
  | .timeWindow => decide (p.closingTime first ≤ p.closingTime second)

theorem allows_total [Quantity.Ordered α] (order : JobOrder) (p : Problem α) (first second : Nat) :
    order.allows p first second || order.allows p second first := by
  cases order with
  | asGiven | random => rfl
  | demand => exact Quantity.Ordered.total _ _
  | far => exact decide_le_total p.farness first second
  | close => exact decide_le_total p.nearness first second
  | timeWindow => exact decide_le_total (fun job => (p.closingTime job).nanoseconds) first second

theorem allows_trans [Quantity.Ordered α] (order : JobOrder) (p : Problem α)
    (first second third : Nat) (before : order.allows p first second)
    (behind : order.allows p second third) : order.allows p first third := by
  cases order with
  | asGiven | random => rfl
  | demand => exact Quantity.Ordered.trans _ _ _ before behind
  | far => exact decide_le_trans p.farness first second third before behind
  | close => exact decide_le_trans p.nearness first second third before behind
  | timeWindow =>
      exact decide_le_trans (fun job => (p.closingTime job).nanoseconds) first second third before
        behind

variable {p : Problem α} {jobs : List Nat}

/-- What an order other than the random one makes of the jobs of a problem. -/
theorem sort_eq_mergeSort (linked : p.Linked) (known : ∀ job ∈ jobs, job < p.destinations.size)
    {order : JobOrder} (keyed : order ≠ .random) (g : Generator) :
    order.sort p g jobs = .ok (jobs.mergeSort (order.allows p), g) := by
  have found (job : Nat) (member : job ∈ jobs) :
      ∃ d, p.destinations[job]? = some d ∧ p.destination job = .ok d ∧
        ∃ cost, p.depotCosts[d.location]? = some cost := by
    have inside := known job member
    have located : p.destinations[job].location < p.depotCosts.size :=
      linked.costs.symm ▸ linked.destinations _ (Array.getElem_mem inside)
    exact ⟨_, Array.getElem?_eq_getElem inside, orOutOfTable_getElem inside,
      _, Array.getElem?_eq_getElem located⟩
  have priced (job : Nat) (member : job ∈ jobs) :
      depotCost p job = .ok (p.costFromDepot job) := by
    obtain ⟨d, listed, answered, cost, costed⟩ := found job member
    rw [depotCost, answered, Problem.costFromDepot, listed, Option.bind_some, costed]
    exact orOutOfTable_eq_ok.mpr costed
  cases order with
  | asGiven =>
      have settled : jobs.Pairwise fun first second => asGiven.allows p first second :=
        List.pairwise_of_forall fun _ _ => rfl
      rw [List.mergeSort_of_pairwise settled, sort]
  | random => exact absurd rfl keyed
  | demand =>
      rw [sort, sortByKey_eq p.firstDemand]
      · rfl
      · intro job member
        obtain ⟨d, listed, answered, _⟩ := found job member
        rw [answered, Problem.firstDemand, listed]
        rfl
  | far =>
      rw [sort, sortByKey_eq p.farness]
      · rfl
      · intro job member
        rw [priced job member]
        rfl
  | close =>
      rw [sort, sortByKey_eq p.nearness]
      · rfl
      · intro job member
        rw [priced job member]
        rfl
  | timeWindow =>
      rw [sort, sortByKey_eq p.closingTime]
      · rfl
      · intro job member
        obtain ⟨d, listed, answered, _⟩ := found job member
        rw [answered, Problem.closingTime, listed]
        rfl

/-! ### What a sort gives -/

/-- What an order makes of some jobs.  The random order swaps each position with one at or before
it; every other order leaves the generator alone, sorts stably, and finds nothing to do when it is
applied again. -/
structure Arranges (order : JobOrder) (p : Problem α) (g : Generator) (jobs sorted : List Nat)
    (after : Generator) : Prop where
  perm : sorted.Perm jobs
  shuffled : order = .random → (sorted, after) = shuffle g jobs ∧
    (∀ i < jobs.length, Shuffle.position g i ≤ i) ∧
    sorted = ((List.range jobs.length).foldl
      (fun swapped i => swapped.swapIfInBounds i (Shuffle.position g i)) jobs.toArray).toList
  stable : order ≠ .random → after = g ∧ SortsStably (order.allows p) jobs sorted
  again : order ≠ .random → ∀ other, order.sort p other sorted = .ok (sorted, other)

/-- Every order brings the jobs of a problem into a list. -/
theorem sort_arranges [Quantity.Ordered α] (linked : p.Linked)
    (known : ∀ job ∈ jobs, job < p.destinations.size) (order : JobOrder) (g : Generator) :
    ∃ sorted after, order.sort p g jobs = .ok (sorted, after) ∧
      order.Arranges p g jobs sorted after := by
  by_cases random : order = .random
  · subst random
    refine ⟨(shuffle g jobs).1, (shuffle g jobs).2, rfl, shuffle_perm g jobs, fun _ => ?_,
      fun other => absurd rfl other, fun other => absurd rfl other⟩
    exact ⟨rfl, fun i _ => Shuffle.position_le g i, shuffle_eq_swaps g jobs⟩
  · have sorts := sortsStably_mergeSort (order.allows_trans p) (order.allows_total p) jobs
    refine ⟨_, g, sort_eq_mergeSort linked known random g, sorts.perm,
      fun other => absurd other random, fun _ => ⟨rfl, sorts⟩, fun _ other => ?_⟩
    rw [sort_eq_mergeSort linked (fun job member => known job (sorts.perm.mem_iff.mp member))
      random, List.mergeSort_of_pairwise sorts.ordered]

/-- A list of jobs of a problem, whatever the order and the state of the generator, is sorted into a
list with the same jobs; so a pass over all unassigned jobs goes through each of them once, and
through no other job. -/
theorem recreate_visits_once [Quantity.Ordered α] {parts : ProblemParts α}
    (built : parts.build = .ok p) :
    (∀ (order : JobOrder) (g : Generator) (jobs : List Nat),
      (∀ job ∈ jobs, job < p.destinations.size) →
      ∃ sorted after, order.sort p g jobs = .ok (sorted, after) ∧
        order.Arranges p g jobs sorted after) ∧
    ∀ (settings : Settings α) (f : Fill α),
      (∀ job ∈ f.work.plan.unassigned, job < p.destinations.size) →
      f.work.plan.unassigned.Nodup →
      ∃ visited after, settings.parameters.order.Arranges p
          (Generator.ofSeed settings.parameters.seed) f.work.plan.unassigned visited after ∧
        Fill.recreate p settings f = Fill.insertJobs p settings visited f ∧
        ∀ job, visited.count job = if job ∈ f.work.plan.unassigned then 1 else 0 := by
  have linked := ProblemParts.linked_of_build built
  refine ⟨fun order g jobs known => sort_arranges linked known order g,
    fun settings f known distinct => ?_⟩
  obtain ⟨visited, after, sorted, arranges⟩ := sort_arranges linked known settings.parameters.order
    (Generator.ofSeed settings.parameters.seed)
  refine ⟨visited, after, arranges, ?_, fun job => ?_⟩
  · rw [Fill.recreate, get_bind, ofResult_bind_of_ok sorted]
  · rw [arranges.perm.count_eq, List.Nodup.count distinct]

/-- Two jobs, of which the one with the larger demand is given first, end up the other way round; and
a pass over an empty plan goes through both. -/
theorem recreate_visits_once_twoJobs :
    let jobs : List Nat := [1, 0]
    let g := Generator.ofSeed 1
    let settings := Settings.forProblem twoJobs { Parameters.standard with order := .demand }
    twoParts.build = .ok twoJobs ∧ (∀ job ∈ jobs, job < twoJobs.destinations.size) ∧
      JobOrder.demand.sort twoJobs g jobs = .ok ([0, 1], g) ∧
      JobOrder.demand.Arranges twoJobs g jobs [0, 1] g ∧
      ∃ plan visited after, Plan.empty twoJobs = .ok plan ∧ plan.unassigned = [0, 1] ∧
        JobOrder.demand.Arranges twoJobs (.ofSeed 2427121) plan.unassigned visited after ∧
        Fill.recreate twoJobs settings (.start twoJobs plan) =
          Fill.insertJobs twoJobs settings visited (.start twoJobs plan) ∧
        ∀ job, visited.count job = if job ∈ [0, 1] then 1 else 0 := by
  intro jobs g settings
  have known : ∀ job ∈ jobs, job < twoJobs.destinations.size := by decide
  obtain ⟨sorts, visits⟩ := recreate_visits_once build_twoParts
  obtain ⟨sorted, after, done, arranges⟩ := sorts .demand g jobs known
  obtain ⟨same, stable⟩ := arranges.stable (by decide)
  have computed : sorted = [0, 1] := by
    refine List.Perm.eq_of_pairwise (fun first second member other before behind => ?_)
      stable.ordered (by decide +kernel) (arranges.perm.trans (by decide))
    have apart : ∀ a ∈ jobs, ∀ b ∈ [0, 1], JobOrder.demand.allows twoJobs a b →
        JobOrder.demand.allows twoJobs b a → a = b := by decide +kernel
    exact apart first (arranges.perm.mem_iff.mp member) second other before behind
  subst same computed
  have begins : (Plan.empty twoJobs).map (·.unassigned) = .ok [0, 1] := by decide +kernel
  cases empty : Plan.empty twoJobs with
  | error e =>
      rw [empty] at begins
      cases begins
  | ok plan =>
      rw [empty] at begins
      have waiting : plan.unassigned = [0, 1] := Except.ok.inj begins
      obtain ⟨visited, afterwards, visitedOnce, same, counts⟩ := visits settings
        (.start twoJobs plan) (by rw [Fill.start, waiting]; decide)
        (by rw [Fill.start, waiting]; decide)
      rw [Fill.start, waiting] at counts
      exact ⟨build_twoParts, known, done, arranges, plan, visited, afterwards, rfl, waiting,
        visitedOnce, same, counts⟩

end JobOrder

end Haulage

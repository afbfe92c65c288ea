/-
Module: Haulage.Proofs.Loads
Purpose: The demands of jobs added up, and exact loads, which do not depend on the order.
Main exports: Problem.demandOf, Load.fits_iff_get, Problem.get_demandOf, Problem.fits_sublist,
  ProblemDocument.demandsAdd_of_build
-/
import Mathlib.Algebra.BigOperators.Group.List.Basic
import Mathlib.Algebra.Order.BigOperators.Group.List
import Mathlib.Algebra.Order.Ring.Rat
import Mathlib.Tactic.SplitIfs
import Haulage.Document.Basic
import Haulage.Plan.Basic
import Haulage.Proofs.Attempt

namespace Haulage

/-! ### Demands -/

namespace Problem

variable {α : Type} [Quantity α]

/-- The demand of a job, which is empty where there is no such job. -/
def demand (p : Problem α) (job : Nat) : Load α :=
  ((p.destinations[job]?).map (·.demand)).getD .empty

/-- The demands of some jobs, added up from the left. -/
def demandOf (p : Problem α) (jobs : List Nat) : Load α := .total (jobs.map p.demand)

omit [Quantity α] in
theorem demand_eq {p : Problem α} {job : Nat} {d : Destination α}
    (found : p.destination job = .ok d) : p.demand job = d.demand := by
  rw [destination, orOutOfTable_eq_ok] at found
  simp [demand, found]

@[simp] theorem demandOf_nil (p : Problem α) : p.demandOf [] = .empty := rfl

theorem demandOf_append_singleton (p : Problem α) (jobs : List Nat) (job : Nat) :
    p.demandOf (jobs ++ [job]) = p.demandOf jobs + p.demand job := by
  simp [demandOf, Load.total]

end Problem

/-! ### Exact loads -/

theorem Quantity.larger_eq_max (x y : Rat) : Quantity.larger x y = max x y := by
  rw [Quantity.larger, max_def]

namespace Load

/-- Exact loads are added dimension by dimension, also where they have different lengths. -/
theorem get_add (a b : Load Rat) (i : Nat) : (a + b).get i = a.get i + b.get i := by
  refine (getD_joinAmounts _ a.amounts b.amounts i).trans ?_
  split
  · rfl
  · rename_i beyond
    rw [get_of_dimensions_le (Nat.not_lt.mp beyond)]
    exact (add_zero _).symm

/-- The larger of two exact loads has the larger amount in every dimension, unless an amount is below
zero where the other load has none. -/
theorem get_atLeast {a : Load Rat} (positive : ∀ i, 0 ≤ a.get i) (b : Load Rat) (i : Nat) :
    (a.atLeast b).get i = max (a.get i) (b.get i) := by
  refine (getD_joinAmounts _ a.amounts b.amounts i).trans ?_
  split
  · exact Quantity.larger_eq_max _ _
  · rename_i beyond
    rw [get_of_dimensions_le (Nat.not_lt.mp beyond)]
    exact (max_eq_left (positive i)).symm

theorem get_total (loads : List (Load Rat)) (i : Nat) :
    (total loads).get i = (loads.map (·.get i)).sum := by
  suffices along : ∀ start : Load Rat,
      (loads.foldl (· + ·) start).get i = start.get i + (loads.map (·.get i)).sum by
    have whole := along empty
    rw [get_empty] at whole
    exact whole.trans (zero_add _)
  induction loads with
  | nil => intro start; simp
  | cons load loads inductionHypothesis =>
      intro start
      rw [List.foldl_cons, inductionHypothesis, get_add, List.map_cons, List.sum_cons, add_assoc]

/-- An exact load fits where no dimension exceeds the capacity, of either length. -/
theorem fits_iff_get {a capacity : Load Rat} :
    a.fits capacity = true ↔ ∀ i, a.get i ≤ capacity.get i := by
  rw [fits_iff]
  constructor
  · intro within i
    by_cases inside : i < max a.dimensions capacity.dimensions
    · exact within i inside
    · rw [get_of_dimensions_le (a := a) (by omega), get_of_dimensions_le (a := capacity) (by omega)]
  · intro within i _
    exact within i

theorem isNegative_eq_false_iff {a : Load Rat} : a.isNegative = false ↔ ∀ i, 0 ≤ a.get i := by
  rw [isNegative, List.any_eq_false, ← forall_amounts_iff (le_refl (0 : Rat))]
  simp only [decide_eq_true_eq, not_lt]

/-- A load without a negative amount. -/
theorem get_nonneg {a : Load Rat} (positive : a.isNegative = false) (i : Nat) : 0 ≤ a.get i :=
  isNegative_eq_false_iff.mp positive i

end Load

namespace Problem

variable {p : Problem Rat} {jobs others : List Nat} {capacity : Load Rat}

theorem get_demandOf (p : Problem Rat) (jobs : List Nat) (i : Nat) :
    (p.demandOf jobs).get i = (jobs.map fun job => (p.demand job).get i).sum := by
  simp [demandOf, Load.get_total, Function.comp_def]

/-- The order of the jobs does not matter. -/
theorem get_demandOf_perm (same : jobs.Perm others) (i : Nat) :
    (p.demandOf jobs).get i = (p.demandOf others).get i := by
  rw [get_demandOf, get_demandOf]
  exact (same.map _).sum_eq

theorem fits_perm (same : jobs.Perm others) :
    (p.demandOf jobs).fits capacity = true ↔ (p.demandOf others).fits capacity = true := by
  simp only [Load.fits_iff_get, get_demandOf_perm same]

/-- No destination takes anything away from a load. -/
def DemandsAdd (p : Problem Rat) : Prop := ∀ d ∈ p.destinations, d.demand.isNegative = false

theorem get_demand_nonneg (adds : p.DemandsAdd) (job i : Nat) : 0 ≤ (p.demand job).get i := by
  cases found : p.destinations[job]? with
  | none =>
      rw [demand, found]
      exact le_of_eq (Load.get_empty i).symm
  | some d =>
      have positive := Load.get_nonneg (adds d (Array.mem_of_getElem? found)) i
      simpa [demand, found] using positive

/-- Fewer jobs weigh no more. -/
theorem get_demandOf_sublist (adds : p.DemandsAdd) (fewer : jobs.Sublist others) (i : Nat) :
    (p.demandOf jobs).get i ≤ (p.demandOf others).get i := by
  rw [get_demandOf, get_demandOf]
  apply (fewer.map _).sum_le_sum
  intro amount member
  obtain ⟨job, _, rfl⟩ := List.mem_map.mp member
  exact get_demand_nonneg adds job i

theorem fits_sublist (adds : p.DemandsAdd) (fewer : jobs.Sublist others)
    (fits : (p.demandOf others).fits capacity = true) :
    (p.demandOf jobs).fits capacity = true := by
  rw [Load.fits_iff_get] at fits ⊢
  intro i
  exact (get_demandOf_sublist adds fewer i).trans (fits i)

end Problem

/-! ### Demands in documents -/

theorem DestinationParts.isNegative_of_build {α : Type} [Quantity α] {parts : DestinationParts α}
    {d : Destination α} (built : parts.build = .ok d) : d.demand.isNegative = false := by
  simp only [DestinationParts.build] at built
  split_ifs at built with negative
  split at built
  · cases built
  · cases built
  · cases built
    simpa using negative

theorem ProblemParts.destinations_of_build {α : Type} [Quantity α] {parts : ProblemParts α}
    {p : Problem α} (built : parts.build = .ok p) :
    parts.destinations = some p.destinations.toList := by
  rcases parts with ⟨points, destinations, vehicles, profiles, sites⟩
  match points, destinations, vehicles, profiles with
  | none, _, _, _ => cases built
  | some _, none, _, _ => cases built
  | some _, some _, none, _ => cases built
  | some _, some _, some _, none => cases built
  | some points, some destinations, some vehicles, some profiles =>
      simp only [ProblemParts.build] at built
      split at built
      · cases built
      · simp only [bind_eq_ok] at built
        rcases built with ⟨_, _, _, _, equal⟩
        cases equal
        rfl

/-- What a document describes has no negative demand. -/
theorem ProblemDocument.demandsAdd_of_build [PlaneLength Rat] {d : ProblemDocument Rat}
    {p : Problem Rat} (built : d.build = .ok p) : p.DemandsAdd := by
  simp only [ProblemDocument.build, bind_eq_ok, mapError_eq_ok] at built
  rcases built with ⟨destinations, each, vehicles, _, parts⟩
  have same := ProblemParts.destinations_of_build parts
  intro destination member
  have among : destination ∈ destinations := by
    rw [Option.some.inj same]
    exact Array.mem_toList_iff.mpr member
  obtain ⟨described, _, found⟩ := mem_of_mapM_eq_ok each among
  rw [DestinationDocument.build, mapError_eq_ok] at found
  exact DestinationParts.isNegative_of_build found

end Haulage

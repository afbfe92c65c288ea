/-
Module: Haulage.Load
Purpose: Loads of several dimensions, such as volume and weight, and their comparison with what a
  vehicle or an unload site takes.
Main exports: Load, Load.get, Load.fits, Load.atLeast, Load.fillPercent
-/
import Haulage.Quantity

namespace Haulage

/-- An amount in each of several dimensions.  A dimension beyond the list counts as zero. -/
structure Load (α : Type) where
  amounts : List α
deriving DecidableEq, Repr, Inhabited

namespace Load

variable {α : Type} [Quantity α]

/-- The load without any dimension. -/
def empty : Load α := ⟨[]⟩

/-- A load of zero in each of `n` dimensions. -/
def zeros (n : Nat) : Load α := ⟨List.replicate n 0⟩

/-- The number of dimensions that are written down. -/
def dimensions (a : Load α) : Nat := a.amounts.length

/-- The amount in dimension `i`. -/
def get (a : Load α) (i : Nat) : α := a.amounts.getD i 0

/-- Whether every amount is zero. -/
def isEmpty (a : Load α) : Bool := a.amounts.all (· == 0)

/-- Whether some amount is below zero. -/
def isNegative (a : Load α) : Bool := a.amounts.any (decide <| · < 0)

instance : BEq (Load α) := ⟨fun a b => a.amounts == b.amounts⟩

/-- Joins two lists of amounts dimension by dimension.  The first list is filled up with zeros where
the second is longer; where the first is longer its amounts stand. -/
def joinAmounts (f : α → α → α) : List α → List α → List α
  | [], bs => bs.map (f 0)
  | as, [] => as
  | a :: as, b :: bs => f a b :: joinAmounts f as bs

instance : Add (Load α) := ⟨fun a b => ⟨joinAmounts (· + ·) a.amounts b.amounts⟩⟩

/-- The larger amount in every dimension. -/
def atLeast (a b : Load α) : Load α := ⟨joinAmounts Quantity.larger a.amounts b.amounts⟩

/-- Whether a load is within a capacity in every dimension of either. -/
def fits (a capacity : Load α) : Bool :=
  (List.range (max a.dimensions capacity.dimensions)).all fun i =>
    decide (a.get i ≤ capacity.get i)

/-- The share of a capacity that a load takes up in the first dimension, in percent.  Without a
capacity nothing is taken up. -/
def fillPercent (a capacity : Load α) : α :=
  if capacity.get 0 ≤ 0 then 0
  else a.get 0 / capacity.get 0 * Quantity.ofInt 100

/-- The sum of a list of loads, added up from the left. -/
def total (loads : List (Load α)) : Load α := loads.foldl (· + ·) empty

@[simp] theorem get_empty (i : Nat) : (empty : Load α).get i = 0 := by simp [get, empty]

omit [Quantity α] in
@[simp] theorem dimensions_empty : (empty : Load α).dimensions = 0 := rfl

theorem length_joinAmounts (f : α → α → α) (as bs : List α) :
    (joinAmounts f as bs).length = max as.length bs.length := by
  fun_induction joinAmounts f as bs with
  | case1 bs => simp
  | case2 as _ => simp
  | case3 a as b bs ih => simp [ih, Nat.succ_max_succ]

/-- A sum has the dimensions of either part. -/
theorem dimensions_add (a b : Load α) :
    (a + b).dimensions = max a.dimensions b.dimensions := length_joinAmounts _ _ _

theorem dimensions_atLeast (a b : Load α) :
    (a.atLeast b).dimensions = max a.dimensions b.dimensions := length_joinAmounts _ _ _

theorem get_eq_getElem {a : Load α} {i : Nat} (inside : i < a.amounts.length) :
    a.get i = a.amounts[i] := by
  rw [get, List.getD_eq_getElem?_getD, List.getElem?_eq_getElem inside, Option.getD_some]

theorem get_of_dimensions_le {a : Load α} {i : Nat} (beyond : a.dimensions ≤ i) : a.get i = 0 := by
  rw [get, List.getD_eq_getElem?_getD, List.getElem?_eq_none beyond, Option.getD_none]

/-- What holds of zero holds of the amounts that are written down if it does in every dimension. -/
theorem forall_amounts_iff {a : Load α} {P : α → Prop} (zero : P 0) :
    (∀ x ∈ a.amounts, P x) ↔ ∀ i, P (a.get i) := by
  constructor
  · intro each i
    by_cases inside : i < a.amounts.length
    · rw [get_eq_getElem inside]
      exact each _ (List.getElem_mem inside)
    · rw [get_of_dimensions_le (Nat.not_lt.mp inside)]
      exact zero
  · intro each x member
    obtain ⟨i, inside, rfl⟩ := List.getElem_of_mem member
    rw [← get_eq_getElem inside]
    exact each i

/-- Two lists are joined as far as the second one reaches. -/
theorem getD_joinAmounts (f : α → α → α) (as bs : List α) (i : Nat) :
    (joinAmounts f as bs).getD i 0 =
      if i < bs.length then f (as.getD i 0) (bs.getD i 0) else as.getD i 0 := by
  fun_induction joinAmounts f as bs generalizing i with
  | case1 bs => by_cases inside : i < bs.length <;> simp [inside]
  | case2 as _ => simp
  | case3 a as b bs inductionHypothesis =>
      cases i with
      | zero => simp
      | succ i => simpa using inductionHypothesis i

/-- Loads with the same dimensions and the same amounts are the same. -/
theorem ext_get {a b : Load α} (dimensions : a.dimensions = b.dimensions)
    (amounts : ∀ i, a.get i = b.get i) : a = b := by
  obtain ⟨as⟩ := a
  obtain ⟨bs⟩ := b
  rw [mk.injEq]
  refine List.ext_getElem dimensions fun i inside insideToo => ?_
  rw [← get_eq_getElem (a := ⟨as⟩) inside, ← get_eq_getElem (a := ⟨bs⟩) insideToo, amounts]

theorem fits_iff {a capacity : Load α} :
    a.fits capacity = true ↔
      ∀ i < max a.dimensions capacity.dimensions, a.get i ≤ capacity.get i := by
  simp [fits]

end Load

end Haulage

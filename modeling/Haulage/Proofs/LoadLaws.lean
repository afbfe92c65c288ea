/-
Module: Haulage.Proofs.LoadLaws
Purpose: Exact loads of any dimensions are vectors that are zero beyond what is written down.  What is
  asked of them depends on their amounts alone, so each law of loads is one of amounts.
Main exports: Load.EqUpToZeros, Load.eqUpToZeros_iff_get, Load.SameAnswers, Load.VectorLaws,
  Load.vectorLaws
-/
import Mathlib.Data.List.GetD
import Haulage.Proofs.Loads

namespace Haulage

namespace Load

/-! ### Zeros at the end -/

section Zeros

variable {α : Type} [Quantity α]

/-- The load with zeros in `n` further dimensions. -/
def padded (a : Load α) (n : Nat) : Load α := ⟨a.amounts ++ List.replicate n 0⟩

/-- Loads that are the same but for zeros at their ends. -/
def EqUpToZeros (a b : Load α) : Prop := ∃ m n, a.padded m = b.padded n

theorem dimensions_padded (a : Load α) (n : Nat) :
    (a.padded n).dimensions = a.dimensions + n := by
  simp [dimensions, padded]

theorem get_padded (a : Load α) (n i : Nat) : (a.padded n).get i = a.get i := by
  by_cases inside : i < a.dimensions
  · exact List.getD_append a.amounts _ 0 i inside
  · have beyond : a.dimensions ≤ i := Nat.not_lt.mp inside
    calc (a.padded n).get i
        = (List.replicate n 0).getD (i - a.dimensions) 0 :=
          List.getD_append_right a.amounts _ 0 i beyond
      _ = 0 := List.getElem?_getD_replicate_default_eq _ _ _
      _ = a.get i := (get_of_dimensions_le beyond).symm

/-- Loads are the same but for zeros at their ends just if no dimension tells them apart. -/
theorem eqUpToZeros_iff_get {a b : Load α} : a.EqUpToZeros b ↔ ∀ i, a.get i = b.get i := by
  constructor
  · rintro ⟨m, n, same⟩ i
    rw [← get_padded a m, same, get_padded]
  · intro amounts
    refine ⟨b.dimensions, a.dimensions, ext_get ?_ fun i => ?_⟩
    · rw [dimensions_padded, dimensions_padded, Nat.add_comm]
    · rw [get_padded, get_padded, amounts]

end Zeros

/-! ### Comparison -/

variable {a b c : Load Rat}

theorem fits_refl (a : Load Rat) : a.fits a = true := fits_iff_get.mpr fun _ => le_refl _

theorem fits_trans (first : a.fits b = true) (second : b.fits c = true) : a.fits c = true :=
  fits_iff_get.mpr fun i => (fits_iff_get.mp first i).trans (fits_iff_get.mp second i)

/-- Loads that fit each other differ in zeros at most. -/
theorem fits_antisymm_iff : (a.fits b = true ∧ b.fits a = true) ↔ a.EqUpToZeros b := by
  rw [fits_iff_get, fits_iff_get, eqUpToZeros_iff_get, ← forall_and]
  exact forall_congr' fun i => le_antisymm_iff.symm

theorem isEmpty_iff_get : a.isEmpty = true ↔ ∀ i, a.get i = 0 := by
  have each : a.isEmpty = true ↔ ∀ x ∈ a.amounts, x = 0 :=
    List.all_eq_true.trans (forall₂_congr fun _ _ => beq_iff_eq)
  exact each.trans (forall_amounts_iff (P := (· = 0)) rfl)

/-- The empty load takes just what is empty. -/
theorem isEmpty_iff_fits_empty (positive : ∀ i, 0 ≤ a.get i) :
    a.isEmpty = true ↔ a.fits empty = true := by
  simp only [isEmpty_iff_get, fits_iff_get, get_empty]
  exact forall_congr' fun i => (positive i).ge_iff_eq'.symm

/-! ### Sums -/

protected theorem add_comm (a b : Load Rat) : a + b = b + a := by
  apply ext_get
  · rw [dimensions_add, dimensions_add, Nat.max_comm]
  · intro i
    rw [get_add, get_add, add_comm]

protected theorem add_assoc (a b c : Load Rat) : a + b + c = a + (b + c) := by
  apply ext_get
  · simp only [dimensions_add, Nat.max_assoc]
  · intro i
    simp only [get_add, add_assoc]

/-- Both parts of a sum may grow. -/
theorem add_fits_add {d : Load Rat} (left : a.fits b = true) (right : c.fits d = true) :
    (a + c).fits (b + d) = true := by
  rw [fits_iff_get] at left right ⊢
  intro i
  rw [get_add, get_add]
  exact add_le_add (left i) (right i)

/-- A part of what fits does so on its own. -/
theorem fits_of_add_fits (positive : ∀ i, 0 ≤ b.get i) (whole : (a + b).fits c = true) :
    a.fits c = true := by
  rw [fits_iff_get] at whole ⊢
  intro i
  calc a.get i ≤ a.get i + b.get i := le_add_of_nonneg_right (positive i)
    _ = (a + b).get i := (get_add a b i).symm
    _ ≤ c.get i := whole i

/-! ### The larger of two loads -/

/-- The larger of two loads fits where both do. -/
theorem atLeast_fits_iff (positive : ∀ i, 0 ≤ a.get i) :
    (a.atLeast b).fits c = true ↔ a.fits c = true ∧ b.fits c = true := by
  simp only [fits_iff_get, get_atLeast positive, max_le_iff, forall_and]

theorem fits_atLeast (positive : ∀ i, 0 ≤ a.get i) :
    a.fits (a.atLeast b) = true ∧ b.fits (a.atLeast b) = true :=
  (atLeast_fits_iff positive).mp (fits_refl _)

/-! ### Loads that cannot be told apart -/

/-- Two loads answer whatever is asked of them as two others do. -/
structure SameAnswers (a b a' b' : Load Rat) : Prop where
  fits : a.fits b = a'.fits b'
  sum : ∀ i, (a + b).get i = (a' + b').get i
  larger : ∀ i, (a.atLeast b).get i = (a'.atLeast b').get i
  isEmpty : a.isEmpty = a'.isEmpty
  fillPercent : a.fillPercent b = a'.fillPercent b'

/-- Zeros at the end of either load change no answer. -/
theorem EqUpToZeros.sameAnswers {a' b' : Load Rat} (positive : ∀ i, 0 ≤ a.get i)
    (first : a.EqUpToZeros a') (second : b.EqUpToZeros b') : SameAnswers a b a' b' := by
  rw [eqUpToZeros_iff_get] at first second
  have positive' : ∀ i, 0 ≤ a'.get i := fun i => first i ▸ positive i
  exact {
    fits := Bool.eq_iff_iff.mpr (by simp only [fits_iff_get, first, second])
    sum := fun i => by rw [get_add, get_add, first, second]
    larger := fun i => by rw [get_atLeast positive, get_atLeast positive', first, second]
    isEmpty := Bool.eq_iff_iff.mpr (by simp only [isEmpty_iff_get, first])
    fillPercent := by simp only [Load.fillPercent, first, second] }

/-! ### The laws -/

/-- What holds of three vectors.  Comparison is a preorder, in which those that differ in zeros at their
ends are equal; a sum grows with its parts and is above each of them; the larger of two is the least
one above both; the empty one takes just what is empty; and zeros at the end change no answer. -/
structure VectorLaws (a b c : Load Rat) : Prop where
  refl : a.fits a = true
  trans : a.fits b = true → b.fits c = true → a.fits c = true
  antisymm : (a.fits b = true ∧ b.fits a = true) ↔ a.EqUpToZeros b
  sum : ∀ i, (a + b).get i = a.get i + b.get i
  comm : a + b = b + a
  assoc : a + b + c = a + (b + c)
  mono : a.fits b = true → (a + c).fits (b + c) = true ∧ (c + a).fits (c + b) = true
  part : (a + b).fits c = true → a.fits c = true
  larger : ∀ i, (a.atLeast b).get i = max (a.get i) (b.get i)
  upper : a.fits (a.atLeast b) = true ∧ b.fits (a.atLeast b) = true
  least : a.fits c = true → b.fits c = true → (a.atLeast b).fits c = true
  isEmpty : a.isEmpty = true ↔ a.fits empty = true
  zeros : ∀ a' b', a.EqUpToZeros a' → b.EqUpToZeros b' → SameAnswers a b a' b'

/-- Exact loads of any dimensions behave as vectors filled up with zeros, if no amount of the first two
is negative. -/
theorem vectorLaws (a b c : Load Rat) (positive : a.isNegative = false ∧ b.isNegative = false) :
    VectorLaws a b c := by
  have first := get_nonneg positive.1
  exact {
    refl := fits_refl a
    trans := fits_trans
    antisymm := fits_antisymm_iff
    sum := get_add a b
    comm := Load.add_comm a b
    assoc := Load.add_assoc a b c
    mono := fun fits => ⟨add_fits_add fits (fits_refl c), add_fits_add (fits_refl c) fits⟩
    part := fits_of_add_fits (get_nonneg positive.2)
    larger := get_atLeast first b
    upper := fits_atLeast first
    least := fun within withinToo => (atLeast_fits_iff first).mpr ⟨within, withinToo⟩
    isEmpty := isEmpty_iff_fits_empty first
    zeros := fun _ _ => EqUpToZeros.sameAnswers first }

/-- One, two and three dimensions.  The first two loads fit into the third together, so the first does
on its own; written with zeros at the end they answer as before. -/
theorem vectorLaws_ragged :
    let a : Load Rat := ⟨[1]⟩
    let b : Load Rat := ⟨[2, 3]⟩
    let c : Load Rat := ⟨[3, 3, 1]⟩
    (a.isNegative = false ∧ b.isNegative = false) ∧ VectorLaws a b c ∧
      (a + b).fits c = true ∧ a.fits c = true ∧ SameAnswers a b ⟨[1, 0]⟩ ⟨[2, 3, 0, 0]⟩ := by
  intro a b c
  have positive : a.isNegative = false ∧ b.isNegative = false := by decide +kernel
  have together : (a + b).fits c = true := by decide +kernel
  have laws := vectorLaws a b c positive
  exact ⟨positive, laws, together, laws.part together, laws.zeros _ _ ⟨1, 0, rfl⟩ ⟨2, 0, rfl⟩⟩

/-- A negative amount stands where the other load has none, and then the larger load is not above
both. -/
example : (empty : Load Rat).fits ((⟨[-1]⟩ : Load Rat).atLeast empty) = false := by decide +kernel

end Load

end Haulage

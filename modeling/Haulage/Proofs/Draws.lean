/-
Module: Haulage.Proofs.Draws
Purpose: A shuffle swaps each position with one that is drawn at or before it.  One random number
  holds several draws; what is left of it always lies below the product of the bounds of the draws
  that are still to be taken.
Main exports: Shuffle.position, shuffle_eq_swaps, Shuffle.position_le
-/
import Mathlib.Data.Nat.Factorial.Basic
import Haulage.Random.Shuffle

namespace Haulage

/-! ### Numbers below a bound -/

/-- Half a word is a number of 32 bits. -/
theorem Generator.nextHalf_lt (g : Generator) : g.nextHalf.1 < halfWords := by
  have whole : g.next.1.toNat < 2 ^ 64 := g.next.1.toNat_lt
  have upper : g.nextHalf.1 = g.next.1.toNat / 2 ^ 32 := by
    rw [show g.nextHalf.1 = (g.next.1 >>> 32).toNat from rfl, UInt64.toNat_shiftRight,
      Nat.shiftRight_eq_div_pow]
    rfl
  rw [upper]
  simp only [halfWords]
  omega

/-- What is drawn below a bound lies below it.  Where half a word is scaled to the largest number,
its rest is too small to ask for a carry. -/
theorem Generator.below_lt (g : Generator) {bound : Nat} (positive : 0 < bound) :
    (g.below bound).1 < bound := by
  have product : g.nextHalf.1 * bound ≤ (halfWords - 1) * bound :=
    Nat.mul_le_mul_right bound (Nat.le_sub_one_of_lt g.nextHalf_lt)
  have parts := Nat.div_add_mod (g.nextHalf.1 * bound) halfWords
  unfold below
  dsimp only
  split_ifs with mayCarry carries
  all_goals
    simp only [halfWords] at *
    omega

namespace Shuffle

/-! ### What is left of a random number -/

/-- The product stays that of the bounds from `first` on. -/
theorem extend_eq (first product factor : Nat) (behind : first ≤ factor)
    (isProduct : product = first.ascFactorial (factor - first)) :
    factor ≤ (extend product factor).2 ∧
      (extend product factor).1 = first.ascFactorial ((extend product factor).2 - first) := by
  fun_induction extend product factor with
  | case1 product factor _ inductionHypothesis =>
      obtain ⟨later, equal⟩ := inductionHypothesis (by omega) (by
        rw [Nat.succ_sub behind, Nat.ascFactorial_succ, ← isProduct, Nat.add_sub_of_le behind,
          Nat.mul_comm])
      exact ⟨Nat.le_of_succ_le later, equal⟩
  | case2 product factor _ => exact ⟨Nat.le_refl _, isProduct⟩

/-- What is left of a number lies below the product of the bounds of the draws that are still to be
taken from it. -/
def Fits (s : Shuffle) : Prop := 0 < s.left → s.chunk < (s.count + 1).ascFactorial s.left

/-- A new number serves for at least one draw, and the count stays. -/
theorem refill_fits {s : Shuffle} (fits : s.Fits) :
    s.refill.Fits ∧ 0 < s.refill.left ∧ s.refill.count = s.count := by
  unfold refill
  split_ifs with empty
  · have single : s.count + 1 = (s.count + 1).ascFactorial (s.count + 2 - (s.count + 1)) := by
      rw [show s.count + 2 - (s.count + 1) = 1 by omega, Nat.ascFactorial_succ,
        Nat.ascFactorial_zero, Nat.add_zero, Nat.mul_one]
    obtain ⟨later, equal⟩ := extend_eq (s.count + 1) (s.count + 1) (s.count + 2) (by omega) single
    refine ⟨fun _ => ?_, Nat.sub_pos_of_lt later, rfl⟩
    rw [← equal]
    exact s.generator.below_lt (equal ▸ Nat.ascFactorial_pos _ _)
  · exact ⟨fits, Nat.pos_of_ne_zero empty, rfl⟩

/-- A draw is at most the count, and leaves the rest of the number to the larger bounds. -/
theorem draw_fits {s : Shuffle} (fits : s.Fits) :
    s.draw.1 ≤ s.count ∧ s.draw.2.Fits ∧ s.draw.2.count = s.count + 1 := by
  obtain ⟨filled, holds, same⟩ := refill_fits fits
  obtain ⟨more, left_eq⟩ := Nat.exists_eq_succ_of_ne_zero (Nat.ne_of_gt holds)
  have bound : s.refill.chunk < (s.count + 1) * (s.count + 1 + 1).ascFactorial more := by
    rw [Nat.succ_ascFactorial, ← Nat.ascFactorial_succ, ← left_eq, ← same]
    exact filled holds
  simp only [draw, left_eq, Nat.succ_eq_add_one, Nat.add_sub_cancel, same]
  split_ifs with last
  · rw [last, Nat.ascFactorial_zero, Nat.mul_one] at bound
    exact ⟨Nat.le_of_lt_succ bound, fun remains => absurd last (Nat.ne_of_gt remains), rfl⟩
  · exact ⟨Nat.le_of_lt_succ (Nat.mod_lt _ (Nat.succ_pos _)),
      fun _ => Nat.div_lt_of_lt_mul bound, rfl⟩

/-! ### The draws of a shuffle -/

/-- The state with which a shuffle begins. -/
def start (g : Generator) : Shuffle := ⟨g, 0, 0, 1⟩

/-- The state after some draws. -/
def after (s : Shuffle) : Nat → Shuffle
  | 0 => s
  | n + 1 => (s.after n).draw.2

/-- The position that a shuffle draws for position `i`. -/
def position (g : Generator) (i : Nat) : Nat := ((start g).after i).draw.1

theorem after_fits (g : Generator) (i : Nat) :
    ((start g).after i).Fits ∧ ((start g).after i).count = i := by
  induction i with
  | zero => exact ⟨fun _ => by simp [start, after], rfl⟩
  | succ i inductionHypothesis =>
      obtain ⟨fits, count⟩ := inductionHypothesis
      obtain ⟨_, fitsAfter, countAfter⟩ := draw_fits fits
      exact ⟨fitsAfter, countAfter.trans (congrArg (· + 1) count)⟩

/-- Each position is swapped with one that does not come after it. -/
theorem position_le (g : Generator) (i : Nat) : position g i ≤ i := by
  obtain ⟨fits, count⟩ := after_fits g i
  exact Nat.le_trans (draw_fits fits).1 (Nat.le_of_eq count)

/-- Swapping goes on with the draws behind those that were taken. -/
theorem swaps_range' {β : Type} (g : Generator) (n first : Nat) (xs : Array β) :
    swaps ((start g).after first) xs (List.range' first n) =
      ((List.range' first n).foldl (fun ys i => ys.swapIfInBounds i (position g i)) xs,
        ((start g).after (first + n)).generator) := by
  induction n generalizing first xs with
  | zero => rfl
  | succ n inductionHypothesis =>
      rw [List.range'_succ, List.foldl_cons, swaps, Nat.add_comm n 1, ← Nat.add_assoc,
        ← inductionHypothesis]
      rfl

end Shuffle

/-- A shuffle goes through the positions from the first one on and swaps each with the one drawn
for it. -/
theorem shuffle_eq_swaps {β : Type} (g : Generator) (xs : List β) :
    (shuffle g xs).1 = ((List.range xs.length).foldl
      (fun ys i => ys.swapIfInBounds i (Shuffle.position g i)) xs.toArray).toList := by
  unfold shuffle
  split_ifs with short
  · rcases xs with _ | ⟨x, _ | ⟨y, rest⟩⟩
    · rfl
    · rfl
    · simp only [List.length_cons] at short
      omega
  · rw [List.range_eq_range']
    exact congrArg (·.1.toList) (Shuffle.swaps_range' g xs.length 0 xs.toArray)

/-- A shuffle neither loses nor repeats an entry. -/
theorem shuffle_perm {β : Type} (g : Generator) (xs : List β) : (shuffle g xs).1.Perm xs := by
  unfold shuffle
  split_ifs
  · exact List.Perm.refl xs
  · exact Shuffle.swaps_perm _ _ xs.toArray

end Haulage

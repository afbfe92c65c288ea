/-
Module: Haulage.Random.Shuffle
Purpose: Bringing a list into a random order.  Several positions are drawn with one number.
Main exports: Shuffle.refill, Shuffle.draw, shuffle
-/
import Haulage.Random.Generator

namespace Haulage

/-- Drawing positions: the next position is below `count + 1`.  A number that was drawn holds
several positions, of which `left` are still to be taken. -/
structure Shuffle where
  generator : Generator
  count : Nat
  chunk : Nat
  left : Nat
deriving Repr, Inhabited

namespace Shuffle

/-- A product of successive numbers that stays below 32 bits, continued as far as it does.
`factor` is the next number, and the last factor is followed by the number in the result. -/
def extend (product factor : Nat) : Nat × Nat :=
  if h : product * factor < Generator.halfWords ∧ product < product * factor then
    extend (product * factor) (factor + 1)
  else (product, factor)
termination_by Generator.halfWords - product

/-- Draws a new number where all positions of the last one are taken. -/
def refill (s : Shuffle) : Shuffle :=
  if s.left = 0 then
    let (bound, factor) := extend (s.count + 1) (s.count + 2)
    let (chunk, generator) := s.generator.below bound
    ⟨generator, s.count, chunk, factor - (s.count + 1)⟩
  else s

/-- Draws a position of at most `count`. -/
def draw (s : Shuffle) : Nat × Shuffle :=
  let s := s.refill
  let left := s.left - 1
  let m := s.count + 1
  if left = 0 then (s.chunk, { s with count := m, left := left })
  else (s.chunk % m, { s with count := m, chunk := s.chunk / m, left := left })

/-- Swaps each of the given positions with one that is drawn for it. -/
def swaps {β : Type} (s : Shuffle) (xs : Array β) : List Nat → Array β × Generator
  | [] => (xs, s.generator)
  | i :: rest =>
    let (j, s) := s.draw
    swaps s (xs.swapIfInBounds i j) rest

end Shuffle

/-- Brings a list into a random order.  Lists of fewer than two entries draw nothing. -/
def shuffle {β : Type} (g : Generator) (xs : List β) : List β × Generator :=
  if xs.length ≤ 1 then (xs, g)
  else
    let (ys, g) := Shuffle.swaps ⟨g, 0, 0, 1⟩ xs.toArray (List.range xs.length)
    (ys.toList, g)

/-- Swapping neither loses nor repeats an entry. -/
theorem Shuffle.swaps_perm {β : Type} (positions : List Nat) (s : Shuffle) (xs : Array β) :
    (Shuffle.swaps s xs positions).1.toList.Perm xs.toList := by
  induction positions generalizing s xs with
  | nil => exact List.Perm.refl _
  | cons i rest ih =>
    refine (ih _ _).trans ?_
    unfold Array.swapIfInBounds
    split
    · split
      · exact (Array.swap_perm _ _).toList
      · exact List.Perm.refl _
    · exact List.Perm.refl _

end Haulage

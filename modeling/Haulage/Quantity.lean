/-
Module: Haulage.Quantity
Purpose: The numbers in which loads, distances, costs and seconds are measured.  A plan is
  computed in doubles and reasoned about in rationals, so every later module is written over
  the interface `Quantity` and never over one of the two.
Main exports: Quantity, Quantity.larger, Quantity.total, Quantity.nearest, Bound, Bound.admits
-/

namespace Haulage

/-!
`Quantity` asks for the field operations, decidable comparison, and the few questions in which a
number meets a whole number.  It states no laws: doubles have hardly any.  The rational instance
uses the operations of the rationals themselves, so that arithmetic facts apply to it directly.
-/

/-- A kind of number with arithmetic, comparison and conversion to and from whole numbers. -/
class Quantity (α : Type) extends
    Zero α, Add α, Sub α, Neg α, Mul α, Div α, LE α, LT α, BEq α where
  /-- Comparison can be decided. -/
  decLe : DecidableLE α
  /-- Strict comparison can be decided. -/
  decLt : DecidableLT α
  /-- The number nearest to a whole number. -/
  ofInt : Int → α
  /-- The nearest whole number, where a half goes away from zero. -/
  roundAway : α → α
  /-- The part before the point, held within 64 bits; something that is no number counts as zero. -/
  wholePart : α → Int
  /-- Whether it is a number and not an infinity. -/
  isFinite : α → Bool
  /-- A total order that refines comparison, down to the sign of a zero. -/
  totalLe : α → α → Bool

namespace Quantity

variable {α : Type} [Quantity α]

instance instDecidableLE : DecidableLE α := decLe

instance instDecidableLT : DecidableLT α := decLt

/-- The larger of two numbers. -/
def larger (a b : α) : α := if a ≤ b then b else a

/-- The part of a number above zero. -/
def positivePart (a : α) : α := larger a 0

/-- The sum of a list, added up from the left. -/
def total (xs : List α) : α := xs.foldl (· + ·) 0

/-- The nearest whole number, where a half goes away from zero, held within 64 bits. -/
def nearest (x : α) : Int := wholePart (roundAway x)

/-- The larger of two numbers of which either may be missing. -/
def largerPresent : Option α → Option α → Option α
  | none, y => y
  | some x, none => some x
  | some x, some y => some (larger x y)

@[simp] theorem largerPresent_none_left (y : Option α) : largerPresent none y = y := rfl

@[simp] theorem largerPresent_none_right (x : Option α) : largerPresent x none = x := by
  cases x <;> rfl

@[simp] theorem total_nil : total ([] : List α) = 0 := rfl

end Quantity

/-! ### The two kinds of number -/

/-- The least and the greatest whole number of 64 bits with a sign. -/
def leastInt64 : Int := -9223372036854775808

@[inherit_doc leastInt64]
def greatestInt64 : Int := 9223372036854775807

/-- The whole number within 64 bits that is nearest to `n`. -/
def holdInt64 (n : Int) : Int := max leastInt64 (min n greatestInt64)

instance : Quantity Float where
  zero := 0
  decLe := inferInstance
  decLt := inferInstance
  ofInt := Float.ofInt
  roundAway := Float.round
  wholePart x := x.toInt64.toInt
  isFinite := Float.isFinite
  totalLe x y :=
    -- Read as signed words, negative numbers come in reverse.
    let key (z : Float) : Int :=
      let word := z.toBits.toNat
      if word < 9223372036854775808 then word else greatestInt64 - (word : Int)
    decide (key x ≤ key y)

instance : Quantity Rat where
  zero := 0
  decLe := inferInstance
  decLt := inferInstance
  ofInt := fun n => (n : Rat)
  roundAway x := if 0 ≤ x then ((x + 1 / 2).floor : Rat) else ((x - 1 / 2).ceil : Rat)
  wholePart x := holdInt64 (if 0 ≤ x then x.floor else x.ceil)
  isFinite _ := true
  totalLe x y := decide (x ≤ y)

/-! ### Bounds -/

/-- A number that others have to stay below; `none` is no bound at all. -/
abbrev Bound (α : Type) := Option α

namespace Bound

variable {α : Type} [Quantity α]

/-- Whether `x` lies strictly below the bound.  No bound keeps out only what is no number and
what has grown beyond all numbers. -/
def admits : Bound α → α → Bool
  | none, x => Quantity.isFinite x || decide (x < 0)
  | some bound, x => decide (x < bound)

/-- Whether `x` has reached the bound. -/
def reachedBy : Bound α → α → Bool
  | none, x => !Quantity.isFinite x && decide (0 < x)
  | some bound, x => decide (bound ≤ x)

@[simp] theorem admits_some (bound x : α) : admits (some bound) x = decide (x < bound) := rfl

@[simp] theorem reachedBy_some (bound x : α) : reachedBy (some bound) x = decide (bound ≤ x) := rfl

end Bound

end Haulage

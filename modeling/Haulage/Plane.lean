/-
Module: Haulage.Plane
Purpose: Points of the plane and the straight distance between two of them.
Main exports: PlaneLength, Point, Point.distance, hypotenuse
-/
import Haulage.Quantity

namespace Haulage

/-- Numbers for which the length of a vector of the plane can be computed. -/
class PlaneLength (α : Type) where
  /-- The length of the vector with the two given components. -/
  length : α → α → α

/-- A point of the plane. -/
structure Point (α : Type) where
  x : α
  y : α
deriving Repr, Inhabited

/-- The length of the straight line from one point to another. -/
def Point.distance {α : Type} [Sub α] [PlaneLength α] (a b : Point α) : α :=
  PlaneLength.length (b.x - a.x) (b.y - a.y)

/-! ### The hypotenuse in doubles

The root of the sum of squares is off by the rounding of the squares, so one correction step
follows it.  The squares of very large or very small sides leave the range of a double, so such
sides are scaled by a power of two first; and a side that is too short to be seen beside the other
is added to it as it is.
-/

namespace Hypotenuse

/-- The power of two with exponent `e`, for an exponent within the range of normal doubles. -/
def powerOfTwo (e : Int) : Float := Float.ofBits ((e + 1023).toNat.toUInt64 <<< 52)

/-- The hypotenuse over two sides whose squares are in range, the longer one first: the root of the
sum of squares, less half the excess of its square over that sum. -/
def corrected (a b : Float) : Float :=
  let h := (a * a + b * b).sqrt
  let excess :=
    if h ≤ 2 * b then
      let d := h - b
      a * (2 * d - a) + (d - 2 * (a - b)) * d
    else
      let d := h - a
      2 * d * (a - 2 * b) + ((4 * d - b) * b + d * d)
  h - excess / (2 * h)

/-- The hypotenuse over two sides, neither negative, the longer one first. -/
def ofSides (a b : Float) : Float :=
  let negligible := powerOfTwo (-54)
  let scale := powerOfTwo (-600)
  if powerOfTwo 511 < a then
    if b ≤ a * negligible then a + b else corrected (a * scale) (b * scale) / scale
  else if b < powerOfTwo (-459) then
    if b / negligible ≤ a then a + b else corrected (a / scale) (b / scale) * scale
  else if b ≤ a * negligible then a + b
  else corrected a b

end Hypotenuse

/-- The length of the hypotenuse over two sides given with a sign. -/
def hypotenuse (x y : Float) : Float :=
  let a := x.abs
  let b := y.abs
  if a.isInf || b.isInf then 1 / 0
  else if a < b then Hypotenuse.ofSides b a
  else Hypotenuse.ofSides a b

instance : PlaneLength Float where
  length := hypotenuse

end Haulage

/-
Module: Haulage.Problem.Travel
Purpose: Tables of the distance, time and cost of travel between the locations of a problem.
Main exports: TravelTable, TravelTable.ofRows, TravelTable.ofPoints, TravelTable.cost
-/
import Haulage.Plane
import Haulage.Time.Duration

namespace Haulage

/-- Tables of travel between locations, each written row after row.  The entry for travel from one
location to another stands at `from * size + to`. -/
structure TravelTable (α : Type) where
  /-- The number of rows, which is the number of locations where all rows are complete. -/
  size : Nat
  distances : Array α
  /-- Times in seconds. -/
  times : Array α
  costs : Array α
deriving Inhabited

namespace TravelTable

variable {α : Type} [Quantity α]

/-- The tables of the given rows.  Without costs of their own, distances are costs. -/
def ofRows (distances times : List (List α)) (costs : Option (List (List α))) : TravelTable α where
  size := distances.length
  distances := distances.flatten.toArray
  times := times.flatten.toArray
  costs := (costs.getD distances).flatten.toArray

/-- The tables of straight distances between points, which serve as times and costs too. -/
def ofPoints [PlaneLength α] (points : List (Point α)) (rounded : Bool) : TravelTable α :=
  let row (a : Point α) := points.map fun b =>
    if rounded then Quantity.roundAway (a.distance b) else a.distance b
  let values := (points.map row).flatten.toArray
  ⟨points.length, values, values, values⟩

/-- An entry of one of the tables.  Travel from a location to itself takes nothing, whatever the
table says. -/
def entry (t : TravelTable α) (values : Array α) (origin target : Nat) : Except Fault α :=
  if origin = target then .ok 0
  else match values[origin * t.size + target]? with
    | some value => .ok value
    | none => .error .outOfTable

/-- The distance from one location to another. -/
def distance (t : TravelTable α) (origin target : Nat) : Except Fault α :=
  t.entry t.distances origin target

/-- The cost of travel from one location to another. -/
def cost (t : TravelTable α) (origin target : Nat) : Except Fault α :=
  t.entry t.costs origin target

/-- The time it takes to travel from one location to another. -/
def time (t : TravelTable α) (origin target : Nat) : Except Fault Duration :=
  if origin = target then .ok .zero
  else (t.entry t.times origin target).bind Duration.ofTravelTime

/-- The largest cost of the table, and at least zero. -/
def greatestCost (t : TravelTable α) : α := t.costs.foldl Quantity.larger 0

@[simp] theorem entry_self (t : TravelTable α) (values : Array α) (a : Nat) :
    t.entry values a a = .ok 0 := by simp [entry]

@[simp] theorem cost_self (t : TravelTable α) (a : Nat) : t.cost a a = .ok 0 := by
  simp [cost]

@[simp] theorem time_self (t : TravelTable α) (a : Nat) : t.time a a = .ok .zero := by
  simp [time]

end TravelTable

end Haulage

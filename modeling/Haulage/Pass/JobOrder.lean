/-
Module: Haulage.Pass.JobOrder
Purpose: Sorting the unassigned jobs before a pass.
Main exports: JobOrder.sort
-/
import Haulage.Pass.Parameters
import Haulage.Random.Shuffle

namespace Haulage

/-- Sorts jobs by a key.  Jobs with equal keys stay in order. -/
def sortByKey {κ : Type} (key : Nat → Except Failure κ) (le : κ → κ → Bool) (jobs : List Nat) :
    Except Failure (List Nat) :=
  if jobs.length ≤ 1 then .ok jobs
  else do
    let keyed ← jobs.mapM fun job => do .ok (← key job, job)
    .ok ((keyed.mergeSort fun a b => le a.1 b.1).map (·.2))

namespace JobOrder

variable {α : Type} [Quantity α]

/-- The cost of reaching a job from a depot, as an average over all vehicles. -/
def depotCost (p : Problem α) (job : Nat) : Except Failure α := do
  orOutOfTable p.depotCosts[(← p.destination job).location]?

/-- Brings jobs into order.  Demands count in the first dimension, costs are rounded, and a window
without an end closes last. -/
def sort (order : JobOrder) (p : Problem α) (g : Generator) (jobs : List Nat) :
    Except Failure (List Nat × Generator) :=
  match order with
  | .asGiven => .ok (jobs, g)
  | .random => .ok (shuffle g jobs)
  | .demand => do
    let sorted ← sortByKey (fun job => do .ok ((← p.destination job).demand.get 0))
      Quantity.totalLe jobs
    .ok (sorted, g)
  | .far => do
    let sorted ← sortByKey
      (fun job => do .ok (Quantity.wholePart (-(Quantity.roundAway (← depotCost p job)))))
      (fun a b => decide (a ≤ b)) jobs
    .ok (sorted, g)
  | .close => do
    let sorted ← sortByKey (fun job => do .ok (Quantity.nearest (← depotCost p job)))
      (fun a b => decide (a ≤ b)) jobs
    .ok (sorted, g)
  | .timeWindow => do
    let sorted ← sortByKey
      (fun job => do .ok ((← p.destination job).window.closes.getD .greatest))
      (fun a b => decide (a ≤ b)) jobs
    .ok (sorted, g)

end JobOrder

end Haulage

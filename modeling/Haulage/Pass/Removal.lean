/-
Module: Haulage.Pass.Removal
Purpose: Taking jobs out of their routes, with repair of the trips that they leave behind.
Main exports: Plan.removeJobs, Plan.repairRoute, Plan.ruin
-/
import Haulage.Plan.Basic

namespace Haulage

namespace Plan

variable {α : Type} [Quantity α]

/-- Removes jobs from their routes.  Lists the jobs that were in a route, each with that route. -/
def removeJobs (plan : Plan α) : List Nat → Except Failure (List (Nat × Nat) × Plan α)
  | [] => .ok ([], plan)
  | job :: rest => do
    let (found, plan) ← plan.removeJob job
    let (removed, plan) ← plan.removeJobs rest
    match found with
    | some r => .ok ((job, r) :: removed, plan)
    | none => .ok (removed, plan)

/-- Removes the bases of a route that close no trip any more, and refreshes the route. -/
def repairRoute (p : Problem α) (plan : Plan α) (r : Nat) : Except Failure (Plan α) := do
  let (_, plan) ← plan.clearIdleBases r
  plan.refreshRoute p r

/-- Removes jobs from their routes and repairs the routes, the lowest first.  Lists the jobs that
were in a route. -/
def ruin (p : Problem α) (plan : Plan α) (jobs : List Nat) :
    Except Failure (List Nat × Plan α) := do
  let (removed, plan) ← plan.removeJobs jobs
  let touched := plan.routeIds.filter fun r => removed.any (·.2 = r)
  .ok (removed.map (·.1), ← touched.foldlM (repairRoute p) plan)

end Plan

end Haulage

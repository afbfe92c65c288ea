/-
Module: Haulage.Proofs.Orderly
Purpose: Plans that keep every job and visit no base twice, whatever their pool holds of the bases.
  A refresh of the pool makes such a plan one in which no stop is lost or duplicated.
Main exports: Plan.Orderly, Plan.Orderly.refreshBases, Plan.Orderly.removeJobs,
  Plan.Orderly.repairRoute
-/
import Haulage.Proofs.Removal

namespace Haulage

variable {α : Type} [Quantity α]

open Attempt

namespace Plan

/-- Every job is unassigned or served once, and every base of the pool is visited at most once.
Which bases the pool takes for free, and where it has them lie, does not matter. -/
structure Orderly (jobs bases : Nat) (plan : Plan α) : Prop where
  jobs_once : ∀ job,
    plan.tally (.destination job) = (knows jobs bases (.destination job)).toNat
  bases_once : ∀ b, plan.routed (.base b) ≤ (knows jobs bases (.base b)).toNat
  size_eq : plan.pool.size = bases

variable {jobs bases r : Nat} {plan next after : Plan α}

section

omit [Quantity α]

theorem Holding.orderly (conserved : Conserved jobs bases plan) : Orderly jobs bases plan := by
  refine ⟨fun job => conserved.once (.destination job), fun b => ?_, conserved.size_eq⟩
  have once := conserved.once (.base b)
  rw [tally] at once
  omega

/-- Times, ledger and what the pool holds of its bases do not count. -/
theorem Orderly.congr (orderly : Orderly jobs bases plan)
    (itineraries : next.itineraries = plan.itineraries) (size : next.pool.size = plan.pool.size)
    (unassigned : next.unassigned = plan.unassigned) : Orderly jobs bases next := by
  have routed (stop : Stop) : next.routed stop = plan.routed stop := by
    rw [Plan.routed, Plan.routed, itineraries]
  refine ⟨fun job => ?_, fun b => ?_, size.trans orderly.size_eq⟩
  · rw [tally, routed, waiting, unassigned]
    exact orderly.jobs_once job
  · rw [routed]
    exact orderly.bases_once b

/-- A base that one route visits no other route visits. -/
theorem Orderly.alone {stops : List Stop} {b : Nat} (orderly : Orderly jobs bases plan)
    (visits : plan.Visits r stops) (member : .base b ∈ stops) : plan.Alone r b := by
  have positive := routed_pos_of_visits visits member
  have most := orderly.bases_once b
  have known := Bool.toNat_le (knows jobs bases (.base b))
  obtain ⟨s, single, found, _, alone⟩ := onlyOnce_of_routed_eq_one
    (show plan.routed (.base b) = 1 by omega)
  rcases visits with ⟨vehicle, here⟩
  obtain ⟨route, foundRoute, _, rfl⟩ := itineraries_eq_some.mp here
  have same : r = s := by
    by_contra apart
    exact alone r route foundRoute apart member
  rintro i others apart ⟨vehicle', there⟩
  obtain ⟨other, foundOther, _, rfl⟩ := itineraries_eq_some.mp there
  exact alone i other foundOther fun equal => apart (same.trans equal.symm)

/-! ### Refreshing the pool -/

/-- A pool can be refreshed as soon as it has the bases that are visited. -/
theorem refreshBases_answers (known : ∀ b, 0 < plan.routed (.base b) → b < plan.pool.size) :
    ∃ pooled, plan.refreshBases = .ok pooled := by
  have all : (((plan.routes.map (·.stops)).map fun stops =>
      stops.filterMap (·.base?)).flatten.all (· < plan.pool.size)) = true := by
    rw [List.all_eq_true]
    exact fun b member => decide_eq_true (known b (mem_routed.mp member))
  simp only [Plan.refreshBases, bind_eq_ok, BasePool.refresh, if_pos all]
  exact ⟨_, _, rfl, rfl⟩

theorem Orderly.refreshBases_answers (orderly : Orderly jobs bases plan) :
    ∃ pooled, plan.refreshBases = .ok pooled := by
  refine Plan.refreshBases_answers fun b visited => ?_
  have most := orderly.bases_once b
  rw [orderly.size_eq]
  by_contra outside
  rw [knows, decide_eq_false outside, Bool.toNat_false] at most
  omega

/-- In a plan with a pool that agrees with its routes no stop is lost or duplicated. -/
theorem Orderly.refreshBases (orderly : Orderly jobs bases plan)
    (done : plan.refreshBases = .ok after) : Conserved jobs bases after := by
  simp only [Plan.refreshBases, bind_eq_ok] at done
  rcases done with ⟨pool, refreshed, equal⟩
  cases equal
  obtain ⟨size, cleared, free⟩ := BasePool.refresh_eq_ok refreshed
  refine ⟨fun stop => ?_, cleared, size.trans orderly.size_eq⟩
  cases stop with
  | destination job => exact orderly.jobs_once job
  | base b =>
      have most := orderly.bases_once b
      have isFree : pool.isFree b = decide (b < bases ∧ plan.routed (.base b) = 0) := by
        rw [Bool.eq_iff_iff, free, mem_routed, orderly.size_eq, decide_eq_true_iff,
          Nat.pos_iff_ne_zero, not_not]
      show (pool.isFree b).toNat + plan.routed (.base b) + 0 = (decide (b < bases)).toNat
      rw [isFree]
      rw [knows] at most
      by_cases inside : b < bases
      · by_cases visited : plan.routed (.base b) = 0
        · simp [inside, visited]
        · simp only [inside, decide_true, Bool.toNat_true] at most
          simp only [inside, visited, and_false, decide_false, decide_true, Bool.toNat_false,
            Bool.toNat_true]
          omega
      · simp only [inside, decide_false, Bool.toNat_false] at most
        simp only [inside, false_and, decide_false, Bool.toNat_false]
        omega

/-! ### Removals -/

theorem size_handBack {stop : Stop} (done : plan.handBack stop = .ok after) :
    after.pool.size = plan.pool.size := by
  cases stop with
  | destination job =>
      cases done
      rfl
  | base b =>
      simp only [Plan.handBack, bind_eq_ok] at done
      rcases done with ⟨⟨wasOut, pool⟩, released, equal⟩
      cases equal
      rw [BasePool.release] at released
      split_ifs at released
      · cases released
        rfl
      · cases released
        exact BasePool.size_modifyEntry _ _ _

theorem unassigned_handBack_base {b : Nat} (done : plan.handBack (.base b) = .ok after) :
    after.unassigned = plan.unassigned := by
  simp only [Plan.handBack, bind_eq_ok] at done
  rcases done with ⟨_, _, equal⟩
  cases equal
  rfl

theorem Orderly.handBack_base {b : Nat} (orderly : Orderly jobs bases plan)
    (done : plan.handBack (.base b) = .ok after) : Orderly jobs bases after := by
  refine orderly.congr ?_ (size_handBack done) (unassigned_handBack_base done)
  rw [itineraries, (handBack_keeps done).1, itineraries]

/-- What is taken out of a route counts no longer. -/
theorem routed_of_taken {route : Route} (new : Route) (taken : List Stop)
    (found : plan.routes[r]? = some route) (split : (taken ++ new.stops).Perm route.stops)
    (stop : Stop) : (plan.setRoute r new).routed stop + taken.count stop = plan.routed stop := by
  have changed := routed_setRoute new stop found
  have counted := split.count_eq stop
  rw [List.count_append] at counted
  omega

theorem Orderly.removeJob {job : Nat} {from? : Option Nat} (orderly : Orderly jobs bases plan)
    (done : plan.removeJob job = .ok (from?, after)) : Orderly jobs bases after := by
  rcases removeJob_eq_ok.mp done with ⟨_, _, rfl⟩ |
    ⟨r, route, position, stop, _, found, place, removed, _⟩
  · exact orderly
  · obtain ⟨_, foundAgain, here, handed⟩ := removeStop_eq_ok.mp removed
    rw [found] at foundAgain
    cases foundAgain
    obtain ⟨inside, equal, _⟩ := List.idxOf?_eq_some_iff.mp place
    rw [List.getElem?_eq_getElem inside, equal] at here
    cases here
    cases handed
    have split := List.getElem_cons_eraseIdx_perm inside
    rw [equal] at split
    have taken := routed_of_taken { route with stops := route.stops.eraseIdx position }
      [.destination job] found split
    refine ⟨fun other => ?_, fun b => ?_, orderly.size_eq⟩
    · -- The job was in a route, so it did not wait.
      have served := routed_pos_of_visits (visits_of_route found)
        (List.mem_of_getElem equal)
      have before := orderly.jobs_once job
      have known := Bool.toNat_le (knows jobs bases (.destination job))
      have absent : job ∉ plan.unassigned := by
        intro waits
        have twice := List.count_pos_iff.mpr waits
        rw [tally, waiting] at before
        omega
      have moved := (addJob_perm absent).count_eq other
      have once := orderly.jobs_once other
      have fewer := taken (.destination other)
      simp only [List.count_cons, List.count_nil, beq_iff_eq, Stop.destination.injEq] at moved fewer
      rw [tally, waiting] at once
      show List.count other (addJob job plan.unassigned) + (plan.setRoute r _).routed _ = _
      omega
    · have most := orderly.bases_once b
      have fewer := taken (.base b)
      show (plan.setRoute r _).routed _ ≤ _
      omega

theorem Orderly.clearIdleBases {count : Nat} (orderly : Orderly jobs bases plan)
    (done : plan.clearIdleBases r = .ok (count, after)) : Orderly jobs bases after := by
  obtain ⟨route, found, _, handed⟩ := clearIdleBases_eq_ok.mp done
  have taken := routed_of_taken { route with stops := (splitIdleBases true route.stops).1 } _ found
    (splitIdleBases_perm true route.stops)
  have shorter : Orderly jobs bases
      (plan.setRoute r { route with stops := (splitIdleBases true route.stops).1 }) := by
    refine ⟨fun job => ?_, fun b => ?_, orderly.size_eq⟩
    · have once := orderly.jobs_once job
      have fewer := taken (.destination job)
      rw [List.count_eq_zero.mpr (by simp)] at fewer
      rw [tally] at once ⊢
      exact (congrArg _ fewer).trans once
    · have most := orderly.bases_once b
      have fewer := taken (.base b)
      omega
  refine foldlM_keeps (Orderly jobs bases) (fun stop member before after kept step => ?_) shorter
    handed
  obtain ⟨b, _, rfl⟩ := List.mem_map.mp member
  exact kept.handBack_base step

theorem Orderly.removeJobs {given : List Nat} {removed : List (Nat × Nat)}
    (orderly : Orderly jobs bases plan) (done : plan.removeJobs given = .ok (removed, after)) :
    Orderly jobs bases after :=
  removeJobs_keeps (Orderly jobs bases) (fun _ _ _ _ kept => kept.removeJob) orderly done

end

theorem Orderly.repairRoute {p : Problem α} (orderly : Orderly jobs bases plan)
    (done : plan.repairRoute p r = .ok after) :
    Orderly jobs bases after ∧ ChangesAt r plan after := by
  simp only [Plan.repairRoute, bind_eq_ok] at done
  rcases done with ⟨⟨count, cleared⟩, tidied, refreshed⟩
  obtain ⟨itineraries, pool, unassigned⟩ := refreshRoute_keeps refreshed
  have changes : ChangesAt r plan cleared :=
    .clearIdleBases (fun _ _ visits member => orderly.alone visits member) tidied
  exact ⟨(orderly.clearIdleBases tidied).congr itineraries (congrArg _ pool) unassigned,
    changes.trans (.refreshRoute refreshed)⟩

end Plan

end Haulage

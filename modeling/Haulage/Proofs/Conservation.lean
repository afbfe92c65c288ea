/-
Module: Haulage.Proofs.Conservation
Purpose: No stop is lost or duplicated by an edit.  A stop waits outside the routes, or occurs once
  in one of them, or is in the hands of the edit under way.
Main exports: Plan.tally, Plan.Holding, Plan.Conserved, Plan.Holding.insertStop,
  Plan.Holding.handBack
-/
import Haulage.Proofs.Edits
import Mathlib.Algebra.GroupWithZero.Nat
import Mathlib.Data.List.Perm.Basic
import Mathlib.Tactic.SplitIfs

namespace Haulage

variable {α : Type} [Quantity α]

/-! ### Free bases -/

namespace BasePool

/-- A free base carries no location and no duration. -/
def Cleared (pool : BasePool) : Prop :=
  ∀ e ∈ pool.entries, e.isFree = true → e.base.location = none ∧ e.base.duration = .zero

/-- A change of one entry that clears it or takes it out leaves all free bases cleared. -/
theorem Cleared.modifyEntry {pool : BasePool} (cleared : pool.Cleared) {b : Nat}
    {f : PoolEntry → PoolEntry}
    (changed : ∀ e, pool.entries[b]? = some e → (f e).isFree = true →
      (f e).base.location = none ∧ (f e).base.duration = .zero) :
    (pool.modifyEntry b f).Cleared := by
  intro e member free
  obtain ⟨i, found⟩ := List.mem_iff_getElem?.mp member
  rw [BasePool.modifyEntry, List.getElem?_modify] at found
  obtain ⟨old, here, rfl⟩ := Option.map_eq_some_iff.mp found
  by_cases same : b = i
  · subst same
    rw [if_pos rfl] at free ⊢
    exact changed old here free
  · rw [if_neg same] at free ⊢
    exact cleared old (List.mem_of_getElem? here) free

theorem Cleared.without {pool : BasePool} (cleared : pool.Cleared) (b : Nat) :
    (pool.without b).Cleared := cleared.modifyEntry (by simp)

theorem Cleared.handedBack {pool : BasePool} (cleared : pool.Cleared) (b : Nat) :
    (pool.handedBack b).Cleared := cleared.modifyEntry fun _ _ _ => ⟨rfl, rfl⟩

/-- A base that is out may be put anywhere. -/
theorem Cleared.placed {pool : BasePool} (cleared : pool.Cleared) {b : Nat}
    (taken : pool.isFree b = false) (location : Nat) (duration : Duration) :
    (pool.placed b location duration).Cleared := by
  apply cleared.modifyEntry
  intro e found free
  simp [isFree, found] at taken
  simp [taken] at free

/-- What a refresh leaves: the bases in no route are free, and cleared. -/
theorem refresh_eq_ok {pool after : BasePool} {routes : List (List Stop)}
    (done : pool.refresh routes = .ok after) :
    after.size = pool.size ∧ after.Cleared ∧ ∀ b, after.isFree b = true ↔ b < pool.size ∧
      b ∉ (routes.map fun stops => stops.filterMap (·.base?)).flatten := by
  simp only [refresh] at done
  split at done
  · cases done
    refine ⟨by simp [size], fun e member free => ?_, fun b => ?_⟩
    · obtain ⟨b, inside, rfl⟩ := List.mem_mapIdx.mp member
      split_ifs at free ⊢
      exact ⟨rfl, rfl⟩
    · by_cases inside : b < pool.entries.length
      · by_cases out : b ∈ (routes.map fun stops => stops.filterMap (·.base?)).flatten
        · simp only [isFree, size, List.getElem?_mapIdx, List.getElem?_eq_getElem inside,
            List.contains_iff_mem, out, if_true]
          simp
        · simp only [isFree, size, List.getElem?_mapIdx, List.getElem?_eq_getElem inside,
            List.contains_iff_mem, out, if_false]
          simp [inside]
      · simp [isFree, size, inside]
  · cases done

end BasePool

namespace Plan

/-! ### Counting stops -/

/-- How often a stop occurs in all routes together. -/
def routed (plan : Plan α) (stop : Stop) : Nat := (plan.itineraries.map (·.2.count stop)).sum

/-- How often a stop waits to be routed: a job is unassigned, and a base is free. -/
def waiting (plan : Plan α) : Stop → Nat
  | .destination job => plan.unassigned.count job
  | .base b => (plan.pool.isFree b).toNat

/-- How often a stop occurs anywhere. -/
def tally (plan : Plan α) (stop : Stop) : Nat := plan.waiting stop + plan.routed stop

omit [Quantity α] in
theorem sum_map_set {β : Type} (f : β → Nat) {xs : List β} {i : Nat} {old : β} (new : β)
    (found : xs[i]? = some old) :
    ((xs.set i new).map f).sum + f old = (xs.map f).sum + f new := by
  induction xs generalizing i with
  | nil => cases found
  | cons x xs inductionHypothesis =>
      cases i with
      | zero =>
          cases found
          simp only [List.set_cons_zero, List.map_cons, List.sum_cons]
          omega
      | succ i =>
          have later := inductionHypothesis (i := i) found
          simp only [List.set_cons_succ, List.map_cons, List.sum_cons]
          omega

omit [Quantity α] in
/-- A change of one route changes the count of a stop by what it changes there. -/
theorem routed_setRoute {plan : Plan α} {r : Nat} {route : Route} (new : Route) (stop : Stop)
    (found : plan.routes[r]? = some route) :
    (plan.setRoute r new).routed stop + route.stops.count stop =
      plan.routed stop + new.stops.count stop := by
  have counted := sum_map_set (fun r : Route => r.stops.count stop) new found
  simpa [routed, itineraries, setRoute, Function.comp_def] using counted

/-- No route visits a stop. -/
def Nowhere (plan : Plan α) (stop : Stop) : Prop := ∀ route ∈ plan.routes, stop ∉ route.stops

/-- A stop occurs once, in one route. -/
def OnlyOnce (plan : Plan α) (stop : Stop) : Prop :=
  ∃ (r : Nat) (route : Route), plan.routes[r]? = some route ∧ route.stops.count stop = 1 ∧
    ∀ (i : Nat) (other : Route), plan.routes[i]? = some other → i ≠ r → stop ∉ other.stops

omit [Quantity α] in
theorem nowhere_iff_routed {plan : Plan α} {stop : Stop} :
    plan.Nowhere stop ↔ plan.routed stop = 0 := by
  simp [Nowhere, routed, itineraries, List.sum_eq_zero_iff_forall_eq_nat, List.count_eq_zero]

omit [Quantity α] in
theorem nowhere_of_routed_eq_zero {plan : Plan α} {stop : Stop} (none : plan.routed stop = 0) :
    plan.Nowhere stop := nowhere_iff_routed.mpr none

omit [Quantity α] in
theorem onlyOnce_of_routed_eq_one {plan : Plan α} {stop : Stop} (once : plan.routed stop = 1) :
    plan.OnlyOnce stop := by
  have positive : 0 < plan.routed stop := by omega
  rw [routed, List.sum_pos_iff_exists_pos_nat] at positive
  rcases positive with ⟨count, member, occurs⟩
  obtain ⟨r, found⟩ := List.mem_iff_getElem?.mp member
  simp only [itineraries, List.map_map, List.getElem?_map, Option.map_eq_some_iff] at found
  rcases found with ⟨route, here, rfl⟩
  -- Without the route the stop is counted less often, so it is counted nowhere else.
  have without := routed_setRoute { route with stops := [] } stop here
  simp only [Function.comp_apply, List.count_nil, Nat.add_zero] at occurs without
  refine ⟨r, route, here, by omega, fun i other there apart => ?_⟩
  have none : (plan.setRoute r { route with stops := [] }).routed stop = 0 := by omega
  apply nowhere_of_routed_eq_zero none other
  exact List.mem_of_getElem? ((routes_setRoute_of_ne (Ne.symm apart)).trans there)

omit [Quantity α] in
theorem addJob_perm {job : Nat} {jobs : List Nat} (absent : job ∉ jobs) :
    (addJob job jobs).Perm (job :: jobs) := by
  induction jobs with
  | nil => exact .refl _
  | cons other rest inductionHypothesis =>
      simp only [List.mem_cons, not_or] at absent
      rcases absent with ⟨ne, later⟩
      rw [addJob, if_neg ne]
      split
      · exact .refl _
      · exact ((inductionHypothesis later).cons other).trans (.swap job other rest)

/-! ### Stops in hand -/

/-- Whether a problem with some jobs and a pool with some bases know a stop. -/
def knows (jobs bases : Nat) : Stop → Bool
  | .destination job => decide (job < jobs)
  | .base b => decide (b < bases)

/-- Every stop is there once, among those in hand or anywhere in the plan, and a base that is free
carries no location and no duration. -/
structure Holding (jobs bases : Nat) (held : List Stop) (plan : Plan α) : Prop where
  once : ∀ stop, plan.tally stop + held.count stop = (knows jobs bases stop).toNat
  cleared : plan.pool.Cleared
  size_eq : plan.pool.size = bases

/-- No stop is lost or duplicated. -/
abbrev Conserved (jobs bases : Nat) (plan : Plan α) : Prop := Holding jobs bases [] plan

variable {jobs bases : Nat} {plan after : Plan α} {held : List Stop}

omit [Quantity α] in
/-- Times and ledger do not count. -/
theorem Holding.congr (holds : Holding jobs bases held plan)
    (itineraries : after.itineraries = plan.itineraries) (pool : after.pool = plan.pool)
    (unassigned : after.unassigned = plan.unassigned) : Holding jobs bases held after := by
  refine ⟨fun stop => ?_, pool ▸ holds.cleared, pool ▸ holds.size_eq⟩
  have waiting : after.waiting stop = plan.waiting stop := by
    cases stop with
    | destination job => rw [Plan.waiting, Plan.waiting, unassigned]
    | base b => rw [Plan.waiting, Plan.waiting, pool]
  rw [tally, waiting, routed, itineraries]
  exact holds.once stop

omit [Quantity α] in
/-- What is in hand waits nowhere. -/
theorem Holding.waiting_eq_zero {stop : Stop} (holds : Holding jobs bases held plan)
    (member : stop ∈ held) : plan.waiting stop = 0 := by
  have once := holds.once stop
  have positive := List.count_pos_iff.mpr member
  have bound := Bool.toNat_le (knows jobs bases stop)
  rw [tally] at once
  omega

omit [Quantity α] in
theorem routed_pos_of_visits {r : Nat} {stops : List Stop} {stop : Stop}
    (visits : plan.Visits r stops) (member : stop ∈ stops) : 0 < plan.routed stop := by
  rcases visits with ⟨vehicle, found⟩
  rw [routed, List.sum_pos_iff_exists_pos_nat]
  refine ⟨stops.count stop, ?_, List.count_pos_iff.mpr member⟩
  exact List.mem_map.mpr ⟨_, List.mem_of_getElem? found, rfl⟩

omit [Quantity α] in
/-- What a route visits waits nowhere. -/
theorem Holding.waiting_of_visits {r : Nat} {stops : List Stop} {stop : Stop}
    (holds : Holding jobs bases held plan) (visits : plan.Visits r stops) (member : stop ∈ stops) :
    plan.waiting stop = 0 := by
  have once := holds.once stop
  have positive := routed_pos_of_visits visits member
  have bound := Bool.toNat_le (knows jobs bases stop)
  rw [tally] at once
  omega

omit [Quantity α] in
/-- What a route visits it visits once, and no other route visits it. -/
theorem Holding.once_of_visits {r : Nat} {stops : List Stop} {stop : Stop}
    (holds : Holding jobs bases held plan) (visits : plan.Visits r stops) (member : stop ∈ stops) :
    stops.count stop = 1 ∧
      ∀ i others, r ≠ i → plan.Visits i others → stop ∉ others := by
  have once := holds.once stop
  have bound := Bool.toNat_le (knows jobs bases stop)
  have positive := routed_pos_of_visits visits member
  rw [tally] at once
  have one : plan.routed stop = 1 := by omega
  obtain ⟨s, single, found, counted, alone⟩ := onlyOnce_of_routed_eq_one one
  rcases visits with ⟨vehicle, here⟩
  obtain ⟨route, foundRoute, _, rfl⟩ := itineraries_eq_some.mp here
  have same : r = s := by
    by_contra apart
    exact alone r route foundRoute apart member
  subst same
  rw [found] at foundRoute
  cases foundRoute
  refine ⟨counted, fun i others apart ⟨vehicle', there⟩ => ?_⟩
  obtain ⟨other, foundOther, _, rfl⟩ := itineraries_eq_some.mp there
  exact alone i other foundOther (Ne.symm apart)

omit [Quantity α] in
theorem Holding.taken_of_visits {r b : Nat} {stops : List Stop}
    (holds : Holding jobs bases held plan) (visits : plan.Visits r stops)
    (member : .base b ∈ stops) : plan.pool.isFree b = false := by
  simpa [Plan.waiting] using holds.waiting_of_visits visits member

omit [Quantity α] in
/-- Handing back a stop in hand. -/
theorem Holding.handBack {stop : Stop} (holds : Holding jobs bases (stop :: held) plan)
    (done : plan.handBack stop = .ok after) : Holding jobs bases held after := by
  have absent := holds.waiting_eq_zero List.mem_cons_self
  have routed (other : Stop) : after.routed other = plan.routed other := by
    simp only [Plan.routed, Plan.itineraries, (handBack_keeps done).1]
  cases stop with
  | destination job =>
      cases done
      refine ⟨fun stop => ?_, holds.cleared, holds.size_eq⟩
      have once := holds.once stop
      have moved := (addJob_perm (List.count_eq_zero.mp absent)).count_eq
      rw [tally, routed]
      cases stop with
      | destination other =>
          simp only [tally, Plan.waiting, List.count_cons, beq_iff_eq, Stop.destination.injEq,
            moved] at once ⊢
          omega
      | base b => simpa [tally, Plan.waiting] using once
  | base b =>
      have taken : plan.pool.isFree b = false := by simpa [Plan.waiting] using absent
      simp only [Plan.handBack, bind_eq_ok] at done
      rcases done with ⟨⟨wasOut, pool⟩, released, equal⟩
      obtain ⟨inside, _, rfl⟩ := (BasePool.release_eq_ok taken).mp released
      cases equal
      refine ⟨fun stop => ?_, ?_, ?_⟩
      · have once := holds.once stop
        rw [tally, routed]
        cases stop with
        | destination job => simpa [tally, Plan.waiting] using once
        | base c =>
            simp only [tally, Plan.waiting, List.count_cons, beq_iff_eq, Stop.base.injEq,
              BasePool.isFree_handedBack inside] at once ⊢
            by_cases same : b = c
            · subst same
              simp only [taken, Bool.toNat_false, if_true, Bool.toNat_true] at once ⊢
              omega
            · simpa [same] using once
      · exact holds.cleared.handedBack b
      · simpa using holds.size_eq

omit [Quantity α] in
theorem Holding.handBackAll {stops : List Stop} (holds : Holding jobs bases (stops ++ held) plan)
    (done : stops.foldlM Plan.handBack plan = .ok after) : Holding jobs bases held after := by
  induction stops generalizing plan with
  | nil =>
      cases done
      exact holds
  | cons stop stops inductionHypothesis =>
      rw [List.foldlM_cons, bind_eq_ok] at done
      rcases done with ⟨next, head, tail⟩
      exact inductionHypothesis (Holding.handBack holds head) tail

/-! ### Edits -/

omit [Quantity α] in
/-- Stops taken out of a route are in hand. -/
theorem Holding.setRoute {r : Nat} {route : Route} (new : Route) (stops : List Stop)
    (holds : Holding jobs bases held plan) (found : plan.routes[r]? = some route)
    (split : (stops ++ new.stops).Perm route.stops) :
    Holding jobs bases (stops ++ held) (plan.setRoute r new) := by
  refine ⟨fun stop => ?_, holds.cleared, holds.size_eq⟩
  have once := holds.once stop
  have changed := routed_setRoute new stop found
  have counted := split.count_eq stop
  have waiting : (plan.setRoute r new).waiting stop = plan.waiting stop := by cases stop <;> rfl
  simp only [tally, waiting, List.count_append] at once counted ⊢
  omega

omit [Quantity α] in
theorem Holding.removeStop {r position : Nat} {stop : Stop}
    (holds : Holding jobs bases held plan)
    (done : plan.removeStop r position = .ok (stop, after)) : Holding jobs bases held after := by
  obtain ⟨route, found, here, handed⟩ := removeStop_eq_ok.mp done
  obtain ⟨inside, rfl⟩ := List.getElem?_eq_some_iff.mp here
  have taken := holds.setRoute { route with stops := route.stops.eraseIdx position }
    [route.stops[position]] found (List.getElem_cons_eraseIdx_perm inside)
  exact Holding.handBack taken handed

omit [Quantity α] in
theorem Holding.removeJob {job : Nat} {from? : Option Nat} (holds : Holding jobs bases held plan)
    (done : plan.removeJob job = .ok (from?, after)) : Holding jobs bases held after := by
  rcases removeJob_eq_ok.mp done with ⟨_, _, rfl⟩ | ⟨r, route, position, stop, _, _, _, removed, _⟩
  · exact holds
  · exact holds.removeStop removed

omit [Quantity α] in
/-- The bases that close no trip are the ones that do not stay. -/
theorem splitIdleBases_perm (afterBase : Bool) (stops : List Stop) :
    ((splitIdleBases afterBase stops).2.map Stop.base ++ (splitIdleBases afterBase stops).1).Perm
      stops := by
  induction stops generalizing afterBase with
  | nil => exact .refl _
  | cons stop rest inductionHypothesis =>
      cases stop with
      | destination job =>
          exact List.perm_middle.trans ((inductionHypothesis false).cons _)
      | base b =>
          simp only [splitIdleBases]
          split
          · exact (inductionHypothesis true).cons _
          · exact List.perm_middle.trans ((inductionHypothesis true).cons _)

omit [Quantity α] in
theorem Holding.clearIdleBases {r count : Nat} (holds : Holding jobs bases held plan)
    (done : plan.clearIdleBases r = .ok (count, after)) : Holding jobs bases held after := by
  obtain ⟨route, found, _, handed⟩ := clearIdleBases_eq_ok.mp done
  exact Holding.handBackAll (holds.setRoute _ _ found (splitIdleBases_perm true route.stops)) handed

theorem Holding.resetRoute {p : Problem α} {r : Nat} (holds : Holding jobs bases held plan)
    (done : plan.resetRoute p r = .ok after) : Holding jobs bases held after := by
  obtain ⟨route, emptied, cleared, found, handed, _, empty, rfl⟩ := resetRoute_eq_ok done
  have taken := holds.setRoute cleared route.stops found (by simp [empty])
  exact (Holding.handBackAll taken (handBackAll_setRoute r cleared handed)).congr rfl rfl rfl

omit [Quantity α] in
/-- A stop in hand, or one that waits, is put into a route. -/
theorem Holding.insertStop {r position : Nat} {stop : Stop}
    (holds : Holding jobs bases held plan)
    (done : plan.insertStop r position stop = .ok after) : Holding jobs bases held after := by
  have inserted {route : Route} (found : plan.routes[r]? = some route)
      (inside : position ≤ route.stops.length) (other : Stop) :
      (plan.setRoute r { route with stops := route.stops.insertIdx position stop }).routed other =
        plan.routed other + if stop = other then 1 else 0 := by
    have changed := routed_setRoute { route with stops := route.stops.insertIdx position stop }
      other found
    have counted := (List.perm_insertIdx stop route.stops inside).count_eq other
    simp only [List.count_cons, beq_iff_eq] at counted changed
    omega
  cases stop with
  | destination job =>
      obtain ⟨route, found, inside, member, rfl⟩ := insertStop_destination.mp done
      refine ⟨fun stop => ?_, holds.cleared, holds.size_eq⟩
      have once := holds.once stop
      have counted := inserted found inside stop
      rw [routed, itineraries] at counted
      rw [tally, routed, itineraries, counted]
      cases stop with
      | destination other =>
          have erased := (List.perm_cons_erase member).count_eq other
          simp only [tally, Plan.waiting, List.count_cons, beq_iff_eq,
            Stop.destination.injEq] at once erased ⊢
          omega
      | base b => simpa [tally, Plan.waiting] using once
  | base b =>
      obtain ⟨route, found, inside, free, rfl⟩ := insertStop_base.mp done
      refine ⟨fun stop => ?_, holds.cleared.without b, by simpa using holds.size_eq⟩
      have once := holds.once stop
      have counted := inserted found inside stop
      rw [routed, itineraries] at counted
      rw [tally, routed, itineraries, counted]
      cases stop with
      | destination job => simpa [tally, Plan.waiting] using once
      | base c =>
          simp only [tally, Plan.waiting, Stop.base.injEq, BasePool.isFree_without] at once ⊢
          by_cases same : b = c
          · subst same
            simp only [free, Bool.toNat_true, if_true, Bool.toNat_false] at once ⊢
            omega
          · simpa [same] using once

omit [Quantity α] in
theorem Holding.placeBase {b location : Nat} {duration : Duration}
    (holds : Holding jobs bases held plan) (taken : plan.pool.isFree b = false)
    (done : plan.placeBase b location duration = .ok after) : Holding jobs bases held after := by
  obtain ⟨_, rfl⟩ := placeBase_eq_ok.mp done
  refine ⟨fun stop => ?_, holds.cleared.placed taken location duration, ?_⟩
  · have once := holds.once stop
    cases stop with
    | destination job => exact once
    | base c => simpa [tally, Plan.waiting, routed, itineraries] using once
  · simpa using holds.size_eq

/-! ### Refreshing -/

theorem Holding.refreshRoute {p : Problem α} {r : Nat} (holds : Holding jobs bases held plan)
    (done : plan.refreshRoute p r = .ok after) : Holding jobs bases held after := by
  obtain ⟨itineraries, pool, unassigned⟩ := refreshRoute_keeps done
  exact holds.congr itineraries pool unassigned

theorem Holding.refreshRoutes {p : Problem α} (holds : Holding jobs bases held plan)
    (done : plan.refreshRoutes p = .ok after) : Holding jobs bases held after :=
  foldlM_keeps (Holding jobs bases held) (fun _ _ _ _ => Holding.refreshRoute) holds done

omit [Quantity α] in
theorem mem_routed {b : Nat} :
    b ∈ ((plan.routes.map (·.stops)).map fun stops => stops.filterMap (·.base?)).flatten ↔
      0 < plan.routed (.base b) := by
  have base (stop : Stop) : stop.base? = some b ↔ stop = .base b := by
    cases stop with
    | destination job => simp [Stop.base?]
    | base c => simp [Stop.base?]
  simp [routed, itineraries, List.sum_pos_iff_exists_pos_nat, base]

omit [Quantity α] in
/-- The pool agrees with the routes as it is, so making it agree changes no base that is out. -/
theorem Holding.refreshBases (holds : Conserved jobs bases plan)
    (done : plan.refreshBases = .ok after) : Conserved jobs bases after := by
  simp only [Plan.refreshBases, bind_eq_ok] at done
  rcases done with ⟨pool, refreshed, equal⟩
  cases equal
  obtain ⟨size, cleared, free⟩ := BasePool.refresh_eq_ok refreshed
  refine ⟨fun stop => ?_, cleared, size.trans holds.size_eq⟩
  have once := holds.once stop
  cases stop with
  | destination job => exact once
  | base b =>
      have agrees : pool.isFree b = plan.pool.isFree b := by
        simp only [tally, Plan.waiting, knows, List.count_nil, Nat.add_zero] at once
        rw [Bool.eq_iff_iff, free, mem_routed, holds.size_eq]
        by_cases inside : b < bases
        · cases before : plan.pool.isFree b with
          | true =>
              simp only [before, inside, decide_true, Bool.toNat_true] at once
              simp only [inside, true_and, iff_true]
              omega
          | false =>
              simp only [before, inside, decide_true, Bool.toNat_true, Bool.toNat_false] at once
              simp only [inside, true_and, Bool.false_eq_true, iff_false]
              omega
        · cases before : plan.pool.isFree b with
          | true => simp [before, inside] at once
          | false => simp [inside]
      simpa [tally, Plan.waiting, agrees, routed, itineraries] using once

end Plan

end Haulage

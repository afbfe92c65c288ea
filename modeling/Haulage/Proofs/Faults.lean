/-
Module: Haulage.Proofs.Faults
Purpose: Where no refusal is possible.  Looking up, travelling, and keeping a plan up to date end
  with a fault at worst.
Main exports: NeverRefuses.refreshRoute, NeverRefuses.handBack, NeverRefuses.cheapestLoadable
-/
import Haulage.Pass.Placement
import Haulage.Pass.Removal
import Haulage.Proofs.Attempt
import Mathlib.Tactic.SplitIfs

namespace Haulage

variable {α : Type} [Quantity α]

namespace NeverRefuses

/-! ### Travel and times -/

omit [Quantity α] in
@[simp] theorem destination (p : Problem α) (job : Nat) : NeverRefuses (p.destination job) :=
  lookUp _

omit [Quantity α] in
@[simp] theorem vehicle (p : Problem α) (v : Nat) : NeverRefuses (p.vehicle v) := lookUp _

omit [Quantity α] in
@[simp] theorem table {β : Type} (p : Problem α) (v : Vehicle α)
    (f : TravelTable α → Except Fault β) : NeverRefuses (p.lookUp v f) := by
  unfold Problem.lookUp
  split
  · rename_i profile _
    cases f profile.table with
    | ok b => exact ok b
    | error e => exact fault e
  · exact fault _

@[simp] theorem travelTime (p : Problem α) (v : Vehicle α) (origin target : Option Nat) :
    NeverRefuses (p.travelTime v origin target) := by
  unfold Problem.travelTime
  split
  · exact table p v _
  · exact ok _

@[simp] theorem travelCost (p : Problem α) (v : Vehicle α) (origin target : Option Nat) :
    NeverRefuses (p.travelCost v origin target) := by
  unfold Problem.travelCost
  split
  · exact table p v _
  · exact ok _

@[simp] theorem after (t : Instant) (d : Duration) : NeverRefuses (t.after d) := by
  unfold Instant.after
  dsimp only
  split
  · exact ok _
  · exact fault _

@[simp] theorem arrival (p : Problem α) (v : Vehicle α) (origin target : Option Nat)
    (departure : Instant) : NeverRefuses (p.arrival v origin target departure) :=
  (travelTime p v origin target).bind fun d _ => after departure d

omit [Quantity α] in
@[simp] theorem base (pool : BasePool) (b : Nat) : NeverRefuses (pool.base b) := lookUp _

omit [Quantity α] in
@[simp] theorem stopLocation (p : Problem α) (pool : BasePool) (stop : Stop) :
    NeverRefuses (p.stopLocation pool stop) := by
  cases stop with
  | destination job => exact (destination p job).bind fun d _ => ok _
  | base b => exact (base pool b).bind fun _ _ => ok _

omit [Quantity α] in
@[simp] theorem endOfStop (p : Problem α) (pool : BasePool) (stop : Stop) (t : Instant) :
    NeverRefuses (p.endOfStop pool stop t) := by
  cases stop with
  | destination job => exact (destination p job).bind fun d _ => after _ _
  | base b => exact (base pool b).bind fun _ _ => after _ _

omit [Quantity α] in
@[simp] theorem waitingAt (p : Problem α) (stop : Stop) (t : Instant) :
    NeverRefuses (p.waitingAt stop t) := by
  cases stop with
  | destination job => exact (destination p job).bind fun d _ => ok _
  | base b => exact ok _

/-! ### Refreshing -/

@[simp] theorem visitsFrom (p : Problem α) (pool : BasePool) (v : Vehicle α)
    (place : Option Nat) (departure : Instant) (stops : List Stop) :
    NeverRefuses (Route.visitsFrom p pool v place departure stops) := by
  induction stops generalizing place departure with
  | nil => exact ok _
  | cons stop rest inductionHypothesis =>
      apply (stopLocation p pool stop).bind
      intro here _
      apply (arrival p v _ _ _).bind
      intro t _
      apply (endOfStop p pool stop t).bind
      intro leaving _
      apply (waitingAt p stop t).bind
      intro waiting _
      exact (inductionHypothesis _ _).bind fun _ _ => ok _

omit [Quantity α] in
@[simp] theorem departure (p : Problem α) (route : Route) : NeverRefuses (route.departure p) := by
  unfold Route.departure
  split
  · exact ok _
  · exact (vehicle p _).bind fun v _ => ok _

@[simp] theorem reschedule (p : Problem α) (pool : BasePool) (route : Route) :
    NeverRefuses (route.reschedule p pool) := by
  apply (vehicle p _).bind
  intro v _
  apply (departure p route).bind
  intro t _
  refine (visitsFrom p pool v _ _ _).bind fun (visits, place, leaving) _ => ?_
  exact (arrival p v _ _ _).bind fun _ _ => ok _

@[simp] theorem tripsFrom (p : Problem α) (pool : BasePool) (load : Load α) (served : Bool)
    (stops : List Stop) : NeverRefuses (tripsFrom p pool load served stops) := by
  induction stops generalizing load served with
  | nil => exact ok _
  | cons stop rest inductionHypothesis =>
      cases stop with
      | destination job =>
          apply (destination p job).bind
          intro d _
          exact (inductionHypothesis _ _).bind fun _ _ => ok _
      | base b =>
          apply (base pool b).bind
          intro _ _
          exact (inductionHypothesis _ _).bind fun _ _ => ok _

@[simp] theorem missesOf (p : Problem α) (t : Instant) (stops : List Stop) (visits : List Visit) :
    NeverRefuses (missesOf p t stops visits) := by
  induction stops generalizing visits with
  | nil => exact ok _
  | cons stop rest inductionHypothesis =>
      cases stop with
      | base b => exact (inductionHypothesis (visits.drop 1)).bind fun _ _ => ok _
      | destination job =>
          cases visits with
          | nil => exact fault _
          | cons visit visits =>
              apply (destination p job).bind
              intro d _
              exact (inductionHypothesis visits).bind fun _ _ => ok _

@[simp] theorem derive (p : Problem α) (pool : BasePool) (route : Route) :
    NeverRefuses (RouteEntry.derive p pool route) := by
  apply (vehicle p _).bind
  intro v _
  refine (tripsFrom p pool _ _ _).bind fun (trips, loads) _ => ?_
  exact (missesOf p _ _ _).bind fun _ _ => ok _

@[simp] theorem refresh (p : Problem α) (pool : BasePool) (l : Ledger α) (r : Nat) (route : Route) :
    NeverRefuses (l.refresh p pool r route) :=
  (derive p pool route).bind fun _ _ => ok _

omit [Quantity α] in
@[simp] theorem route (plan : Plan α) (r : Nat) : NeverRefuses (plan.route r) := lookUp _

@[simp] theorem refreshRoute (p : Problem α) (plan : Plan α) (r : Nat) :
    NeverRefuses (plan.refreshRoute p r) := by
  apply (route plan r).bind
  intro old _
  apply (reschedule p _ old).bind
  intro fresh _
  exact (refresh p _ _ r fresh).bind fun _ _ => ok _

theorem refreshRoutes (p : Problem α) (plan : Plan α) : NeverRefuses (plan.refreshRoutes p) :=
  foldlM (fun _ => True) (fun r _ q _ => ⟨refreshRoute p q r, fun _ _ => trivial⟩) trivial

omit [Quantity α] in
theorem refreshBases (plan : Plan α) : NeverRefuses plan.refreshBases := by
  refine NeverRefuses.bind ?_ fun _ _ => ok _
  simp only [BasePool.refresh]
  split_ifs
  · exact ok _
  · exact fault _

/-! ### Handing back -/

omit [Quantity α] in
@[simp] theorem handBack (plan : Plan α) (stop : Stop) : NeverRefuses (plan.handBack stop) := by
  cases stop with
  | destination job => exact ok _
  | base b =>
      refine NeverRefuses.bind ?_ fun _ _ => ok _
      unfold BasePool.release
      split_ifs
      · exact ok _
      · exact ok _
      · exact fault _

omit [Quantity α] in
@[simp] theorem handBackAll (plan : Plan α) (stops : List Stop) :
    NeverRefuses (stops.foldlM Plan.handBack plan) :=
  foldlM (fun _ => True) (fun stop _ q _ => ⟨handBack q stop, fun _ _ => trivial⟩) trivial

omit [Quantity α] in
@[simp] theorem clearIdleBases (plan : Plan α) (r : Nat) :
    NeverRefuses (plan.clearIdleBases r) := by
  refine (route plan r).bind fun old _ => NeverRefuses.bind ?_ fun _ _ => ok _
  exact foldlM (fun _ => True) (fun b _ q _ => ⟨handBack q (.base b), fun _ _ => trivial⟩) trivial

theorem repairRoute (p : Problem α) (plan : Plan α) (r : Nat) :
    NeverRefuses (plan.repairRoute p r) :=
  (clearIdleBases plan r).bind fun (_, cleared) _ => refreshRoute p cleared r

omit [Quantity α] in
@[simp] theorem removeStop (plan : Plan α) (r position : Nat) :
    NeverRefuses (plan.removeStop r position) :=
  (route plan r).bind fun _ _ => (lookUp _).bind fun stop _ =>
    (handBack _ stop).bind fun _ _ => ok _

omit [Quantity α] in
@[simp] theorem removeStops (plan : Plan α) (r position count : Nat) :
    NeverRefuses (Work.removeStops plan r position count) := by
  induction count generalizing plan with
  | zero => exact ok _
  | succ count inductionHypothesis =>
      refine (removeStop plan r _).bind fun (stop, shorter) _ => ?_
      exact (inductionHypothesis shorter).bind fun _ _ => ok _

omit [Quantity α] in
@[simp] theorem placeBase (plan : Plan α) (b location : Nat) (duration : Duration) :
    NeverRefuses (plan.placeBase b location duration) := by
  refine NeverRefuses.bind ?_ fun _ _ => ok _
  unfold BasePool.place
  split
  · exact ok _
  · exact fault _

end NeverRefuses

/-! ### Placing -/

/-- Locations and times are given without a refusal, and only at locations that are tracked. -/
structure Dependable (settings : Settings α) (volumes : Volumes α) : Prop where
  offers : ∀ query, NeverRefuses (settings.provider.offers query)
  times : ∀ v location t, NeverRefuses (settings.serviceTimes v location t)
  tracked : ∀ query offered, settings.provider.offers query = .ok offered →
    ∀ location ∈ offered, (volumes.tracked? location).isSome = true

namespace NeverRefuses

omit [Quantity α] in
theorem entry {volumes : Volumes α} {location : Nat}
    (tracked : (volumes.tracked? location).isSome = true) :
    NeverRefuses (volumes.entry location) := by
  obtain ⟨e, found⟩ := Option.isSome_iff_exists.mp tracked
  rw [Volumes.entry, found]
  exact ok e

theorem isLoadable {volumes : Volumes α} {location : Nat} (load : Load α)
    (tracked : (volumes.tracked? location).isSome = true) :
    NeverRefuses (volumes.isLoadable location load) := by
  apply (entry tracked).bind
  intro e _
  split
  · exact ok _
  · exact ok _

theorem cheapestLoadable {settings : Settings α} {volumes : Volumes α}
    (dependable : Dependable settings volumes) (p : Problem α) (query : LocationQuery α)
    (load : Load α) :
    NeverRefuses (cheapestLoadable p settings.provider volumes query load) := by
  apply (dependable.offers query).bind
  intro offered offers
  refine NeverRefuses.bind ?_ fun _ _ => ok _
  have tracked := dependable.tracked query offered offers
  clear offers
  suffices along : ∀ best, NeverRefuses (cheapestAmong p volumes query load best offered) from
    along none
  induction offered with
  | nil => exact fun best => ok _
  | cons location rest inductionHypothesis =>
      intro best
      have later := inductionHypothesis fun l member => tracked l (List.mem_cons_of_mem _ member)
      apply (isLoadable load (tracked location List.mem_cons_self)).bind
      intro loadable _
      split
      · apply (travelCost p _ _ _).bind
        intro access _
        exact (travelCost p _ _ _).bind fun egress _ => later _
      · exact later _

theorem placementQuery (p : Problem α) (plan : Plan α) (r : Nat) (s : PlacementState α) :
    NeverRefuses (Work.placementQuery p plan r s) := by
  refine (route plan r).bind fun old _ => (vehicle p _).bind fun v _ => ?_
  dsimp only
  split
  · exact fault _
  · apply (lookUp _).bind
    intro previous _
    apply (stopLocation p _ previous).bind
    intro place _
    split
    · exact (stopLocation p _ _).bind fun _ _ => ok _
    · exact ok _

theorem placeAt {settings : Settings α} {volumes : Volumes α}
    (dependable : Dependable settings volumes) (p : Problem α) (plan : Plan α)
    (r b location : Nat) (query : LocationQuery α) (position : Nat) :
    NeverRefuses (Work.placeAt p settings plan r b location query position) := by
  refine (route plan r).bind fun old _ => (lookUp _).bind fun visit _ => ?_
  refine (arrival p _ _ _ _).bind fun t _ => (dependable.times _ _ _).bind fun duration _ => ?_
  exact placeBase plan b location duration

end NeverRefuses

end Haulage

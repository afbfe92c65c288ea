/-
Module: Haulage.Proofs.OfferCosts
Purpose: What an offer costs.  Travel along a route is a way from place to place, and the detours and
  the change of vehicle that an offer is charged for are what the way becomes longer by.
Main exports: Problem.wayCost, Problem.wayCost_detour, Route.transportCost_eq_ok, cheapest_costExact
-/
import Haulage.Proofs.Realised
import Mathlib.Tactic.Ring

namespace Haulage

open Attempt Plan

/-! ### The cost of a way -/

namespace Problem

/-- The cost for a vehicle of travelling from place to place. -/
def wayCost (p : Problem Rat) (v : Vehicle Rat) : List (Option Nat) → Except Failure Rat
  | [] => .ok 0
  | [_] => .ok 0
  | origin :: target :: rest => do
    .ok ((← p.travelCost v origin target) + (← wayCost p v (target :: rest)))

section

variable {p : Problem Rat} {v home : Vehicle Rat} {front back : List (Option Nat)}
  {origin target : Option Nat} {cost : Rat}

theorem wayCost_cons_cons :
    p.wayCost v (origin :: target :: back) = .ok cost ↔
      ∃ leg way, p.travelCost v origin target = .ok leg ∧ p.wayCost v (target :: back) = .ok way ∧
        cost = leg + way := by
  simp only [wayCost, bind_eq_ok, Except.ok.injEq]
  constructor
  · rintro ⟨leg, travels, way, later, rfl⟩
    exact ⟨leg, way, travels, later, rfl⟩
  · rintro ⟨leg, way, travels, later, rfl⟩
    exact ⟨leg, travels, way, later, rfl⟩

/-- A way by some place leads to it and on from it. -/
theorem wayCost_append :
    p.wayCost v (front ++ origin :: back) = .ok cost ↔
      ∃ there way, p.wayCost v (front ++ [origin]) = .ok there ∧
        p.wayCost v (origin :: back) = .ok way ∧ cost = there + way := by
  induction front generalizing cost with
  | nil =>
      constructor
      · intro costs
        exact ⟨0, cost, rfl, costs, (zero_add cost).symm⟩
      · rintro ⟨there, way, begins, costs, rfl⟩
        cases begins
        rw [zero_add]
        exact costs
  | cons first front inductionHypothesis =>
      -- The first leg ends at the place itself or at the next place in front of it.
      have legs (next : Option Nat) (rest rest' : List (Option Nat))
          (along : ∀ cost, p.wayCost v (next :: rest) = .ok cost ↔ ∃ there way,
            p.wayCost v (next :: rest') = .ok there ∧ p.wayCost v (origin :: back) = .ok way ∧
              cost = there + way) :
          p.wayCost v (first :: next :: rest) = .ok cost ↔ ∃ there way,
            p.wayCost v (first :: next :: rest') = .ok there ∧
              p.wayCost v (origin :: back) = .ok way ∧ cost = there + way := by
        simp only [wayCost_cons_cons, along]
        constructor
        · rintro ⟨leg, _, travels, ⟨there, way, leads, later, rfl⟩, rfl⟩
          exact ⟨leg + there, way, ⟨leg, there, travels, leads, rfl⟩, later, (add_assoc ..).symm⟩
        · rintro ⟨_, way, ⟨leg, there, travels, leads, rfl⟩, later, rfl⟩
          exact ⟨leg, there + way, travels, ⟨there, way, leads, later, rfl⟩, add_assoc ..⟩
      cases front with
      | nil => exact legs origin back [] fun cost => inductionHypothesis
      | cons next front =>
          exact legs next (front ++ origin :: back) (front ++ [origin]) fun cost =>
            inductionHypothesis

/-- A way by one more place is longer by the detour. -/
theorem wayCost_detour {location : Nat} {detour : Rat}
    (costs : p.wayCost v (front ++ origin :: target :: back) = .ok cost)
    (detours : p.detourCost v origin location target = .ok detour) :
    p.wayCost v (front ++ origin :: some location :: target :: back) = .ok (cost + detour) := by
  obtain ⟨there, _, leads, onwards, rfl⟩ := wayCost_append.mp costs
  obtain ⟨direct, way, travels, later, rfl⟩ := wayCost_cons_cons.mp onwards
  simp only [detourCost, bind_eq_ok, Except.ok.injEq] at detours
  rcases detours with ⟨_, travelsToo, access, goes, egress, comes, rfl⟩
  cases travels.symm.trans travelsToo
  have further : p.wayCost v (some location :: target :: back) = .ok (egress + way) :=
    wayCost_cons_cons.mpr ⟨egress, way, comes, later, rfl⟩
  have around : p.wayCost v (origin :: some location :: target :: back) =
      .ok (access + (egress + way)) := wayCost_cons_cons.mpr ⟨access, _, goes, further, rfl⟩
  refine wayCost_append.mpr ⟨there, _, leads, around, ?_⟩
  ring

/-- The same of a way that begins at a certain place and comes by others to the detour. -/
theorem wayCost_detour_behind {place : Option Nat} {early : List (Option Nat)} {location : Nat}
    {detour : Rat} (leads : place :: early = front ++ [origin])
    (costs : p.wayCost v (place :: (early ++ target :: back)) = .ok cost)
    (detours : p.detourCost v origin location target = .ok detour) :
    p.wayCost v (place :: (early ++ some location :: target :: back)) = .ok (cost + detour) := by
  rw [← List.cons_append, leads, List.append_assoc, List.singleton_append] at costs ⊢
  exact wayCost_detour costs detours

/-! ### Another vehicle -/

/-- Vehicles of one profile travel at the same cost. -/
theorem travelCost_eq_of_profile (same : v.profile = home.profile) :
    p.travelCost v = p.travelCost home := by
  funext origin target
  unfold travelCost lookUp
  rw [same]

theorem wayCost_eq_of_profile (same : v.profile = home.profile) (places : List (Option Nat)) :
    p.wayCost v places = p.wayCost home places := by
  induction places with
  | nil => rfl
  | cons origin rest inductionHypothesis =>
      cases rest with
      | nil => rfl
      | cons target rest =>
          simp only [wayCost, inductionHypothesis, travelCost_eq_of_profile same]

/-- A way from one place to another by some places, its two outer legs apart. -/
theorem wayCost_between {places : List (Option Nat)} {first last : Option Nat}
    (begins : places.head? = some first) (ends : places.getLast? = some last) :
    p.wayCost v (origin :: (places ++ [target])) = .ok cost ↔
      ∃ access way egress, p.travelCost v origin first = .ok access ∧
        p.wayCost v places = .ok way ∧ p.travelCost v last target = .ok egress ∧
        cost = access + way + egress := by
  obtain ⟨inner, rfl⟩ := List.getLast?_eq_some_iff.mp ends
  obtain ⟨rest, split⟩ := List.head?_eq_some_iff.mp begins
  rw [split, List.cons_append, wayCost_cons_cons, ← List.cons_append, ← split, List.append_assoc,
    List.singleton_append]
  have behind (cost : Rat) : p.wayCost v (inner ++ last :: [target]) = .ok cost ↔
      ∃ way rest, p.wayCost v (inner ++ [last]) = .ok way ∧ p.wayCost v (last :: [target]) = .ok rest ∧
        cost = way + rest := wayCost_append
  simp only [behind, wayCost_cons_cons]
  constructor
  · rintro ⟨access, _, goes, ⟨way, _, along, ⟨egress, none, comes, stays, rfl⟩, rfl⟩, rfl⟩
    cases stays
    exact ⟨access, way, egress, goes, along, comes, by ring⟩
  · rintro ⟨access, way, egress, goes, along, comes, rfl⟩
    exact ⟨access, way + (egress + 0), goes,
      ⟨way, egress + 0, along, ⟨egress, 0, comes, rfl, rfl⟩, rfl⟩, by ring⟩

end

end Problem

/-! ### The way of a route -/

section

variable {p : Problem Rat} {pool other : BasePool} {v home : Vehicle Rat} {stops : List Stop}
  {before after : List Stop} {places : List (Option Nat)} {place here ahead : Option Nat}
  {route : Route}

theorem BasePool.Locates.mono (locates : pool.Locates stops) (subset : before ⊆ stops) :
    pool.Locates before :=
  fun b member => locates b (subset member)

theorem BasePool.Locates.congr (locates : pool.Locates stops)
    (same : ∀ b, .base b ∈ stops → other.base b = pool.base b) : other.Locates stops := by
  intro b member
  rw [BasePool.locationOf_congr (same b member)]
  exact locates b member

theorem BasePool.Locates.append (first : pool.Locates before) (second : pool.Locates after) :
    pool.Locates (before ++ after) :=
  fun b member => (List.mem_append.mp member).elim (first b) (second b)

theorem BasePool.locates_destination (pool : BasePool) (job : Nat) :
    pool.Locates [.destination job] := by
  intro b member
  cases List.mem_singleton.mp member

theorem Problem.stopLocations_congr (same : ∀ b, .base b ∈ stops → other.base b = pool.base b) :
    stops.mapM (p.stopLocation other) = stops.mapM (p.stopLocation pool) := by
  induction stops with
  | nil => rfl
  | cons stop rest inductionHypothesis =>
      rw [List.mapM_cons, List.mapM_cons, inductionHypothesis fun b member =>
        same b (List.mem_cons_of_mem stop member)]
      rw [Problem.stopLocation_congr fun b here => same b (here ▸ List.mem_cons_self)]

theorem Problem.stopLocations_append :
    (before ++ after).mapM (p.stopLocation pool) = .ok places ↔
      ∃ early late, before.mapM (p.stopLocation pool) = .ok early ∧
        after.mapM (p.stopLocation pool) = .ok late ∧ places = early ++ late := by
  rw [List.mapM_append]
  simp only [bind_eq_ok]
  constructor
  · rintro ⟨early, front, late, back, equal⟩
    cases equal
    exact ⟨early, late, front, back, rfl⟩
  · rintro ⟨early, late, front, back, rfl⟩
    exact ⟨early, front, late, back, rfl⟩

theorem Problem.stopLocations_ends {firstStop lastStop : Stop}
    (lie : stops.mapM (p.stopLocation pool) = .ok places) (begins : stops.head? = some firstStop)
    (ends : stops.getLast? = some lastStop) :
    ∃ first last, p.stopLocation pool firstStop = .ok first ∧
      p.stopLocation pool lastStop = .ok last ∧ places.head? = some first ∧
      places.getLast? = some last := by
  obtain ⟨rest, split⟩ := List.head?_eq_some_iff.mp begins
  obtain ⟨inner, rfl⟩ := List.getLast?_eq_some_iff.mp ends
  obtain ⟨early, late, _, back, rfl⟩ := stopLocations_append.mp lie
  obtain ⟨last, none, there, nothing, rfl⟩ := mapM_cons_eq_ok.mp back
  cases nothing
  rw [split] at lie
  obtain ⟨first, further, here, _, equal⟩ := mapM_cons_eq_ok.mp lie
  refine ⟨first, last, here, there, ?_, ?_⟩
  · rw [equal, List.head?_cons]
  · simp

/-- Travel through stops whose location is known is travel from place to place. -/
theorem Route.costFrom_eq_ok {spent total : Rat} (locates : pool.Locates stops) :
    Route.costFrom p pool v place spent stops = .ok total ↔
      ∃ places cost, stops.mapM (p.stopLocation pool) = .ok places ∧
        p.wayCost v (place :: (places ++ [v.endLocation])) = .ok cost ∧ total = spent + cost := by
  induction stops generalizing place spent with
  | nil =>
      simp only [Route.costFrom, bind_eq_ok, Except.ok.injEq]
      constructor
      · rintro ⟨cost, travels, rfl⟩
        exact ⟨[], cost, rfl, Problem.wayCost_cons_cons.mpr ⟨cost, 0, travels, rfl, (add_zero _).symm⟩,
          rfl⟩
      · rintro ⟨_, _, nowhere, travels, rfl⟩
        cases nowhere
        obtain ⟨cost, _, leg, stays, rfl⟩ := Problem.wayCost_cons_cons.mp travels
        cases stays
        exact ⟨cost, leg, by rw [add_zero]⟩
  | cons stop rest inductionHypothesis =>
      have later : pool.Locates rest := locates.mono (List.subset_cons_self stop rest)
      simp only [Route.costFrom, bind_eq_ok, inductionHypothesis later, mapM_cons_eq_ok]
      constructor
      · rintro ⟨lies, there, leg, travels, places, cost, along, costs, rfl⟩
        obtain ⟨location, rfl⟩ := locates.stopLocation List.mem_cons_self there
        refine ⟨some location :: places, leg + cost, ⟨some location, places, there, along, rfl⟩, ?_,
          add_assoc ..⟩
        exact Problem.wayCost_cons_cons.mpr ⟨leg, cost, travels, costs, rfl⟩
      · rintro ⟨_, _, ⟨lies, places, there, along, rfl⟩, travels, rfl⟩
        obtain ⟨location, rfl⟩ := locates.stopLocation List.mem_cons_self there
        obtain ⟨leg, cost, goes, costs, rfl⟩ := Problem.wayCost_cons_cons.mp travels
        exact ⟨some location, there, leg, goes, places, cost, along, costs, (add_assoc ..).symm⟩

/-- The cost of travel along a route is that of its way. -/
theorem Route.transportCost_eq_ok {total : Rat} (locates : pool.Locates route.stops)
    (stays : route.stops ≠ []) (driven : p.vehicle route.vehicle = .ok v) :
    route.transportCost p pool = .ok total ↔
      ∃ places, route.stops.mapM (p.stopLocation pool) = .ok places ∧
        p.wayCost v (v.depot :: (places ++ [v.endLocation])) = .ok total := by
  have leaves : route.isEmpty = false := by simpa [Route.isEmpty] using stays
  rw [Route.transportCost, leaves, if_neg Bool.false_ne_true]
  simp only [driven, bind_eq_ok, Except.ok.injEq, exists_eq_left', costFrom_eq_ok locates, zero_add]
  constructor
  · rintro ⟨places, cost, lie, costs, rfl⟩
    exact ⟨places, lie, costs⟩
  · rintro ⟨places, lie, costs⟩
    exact ⟨places, total, lie, costs, rfl⟩

/-- A vehicle that passes some stops ends up at the last of their places. -/
theorem Route.visitsFrom_ends {departure leaving : Instant} {visits : List Visit}
    (locates : pool.Locates stops) (lie : stops.mapM (p.stopLocation pool) = .ok places)
    (visited : Route.visitsFrom p pool v place departure stops = .ok (visits, here, leaving)) :
    ∃ earlier, place :: places = earlier ++ [here] := by
  induction stops generalizing place departure places visits with
  | nil =>
      cases lie
      cases visited
      exact ⟨[], rfl⟩
  | cons stop rest inductionHypothesis =>
      obtain ⟨lies, further, there, along, rfl⟩ := mapM_cons_eq_ok.mp lie
      obtain ⟨location, rfl⟩ := locates.stopLocation List.mem_cons_self there
      simp only [Route.visitsFrom, there, bind_eq_ok, Except.ok.injEq, exists_eq_left'] at visited
      rcases visited with ⟨_, _, _, _, _, _, ⟨later, _, _⟩, onwards, equal⟩
      cases equal
      have located : pool.Locates rest := locates.mono (List.subset_cons_self stop rest)
      obtain ⟨earlier, split⟩ := inductionHypothesis located along onwards
      exact ⟨place :: earlier, congrArg (place :: ·) split⟩

/-- A vehicle heads for the first of the places ahead, of which its end is the last one. -/
theorem Problem.headsFor_begins (locates : pool.Locates stops)
    (lie : stops.mapM (p.stopLocation pool) = .ok places)
    (heads : p.headsFor pool v place stops = .ok ahead) :
    ∃ later, places ++ [v.endLocation] = ahead :: later := by
  cases stops with
  | nil =>
      cases lie
      cases heads
      exact ⟨[], rfl⟩
  | cons stop rest =>
      obtain ⟨lies, further, there, _, rfl⟩ := mapM_cons_eq_ok.mp lie
      obtain ⟨location, rfl⟩ := locates.stopLocation List.mem_cons_self there
      rw [Problem.headsFor, there] at heads
      cases heads
      exact ⟨further ++ [v.endLocation], rfl⟩

/-- The place before a gap is the last one in front of it. -/
theorem Gap.Met.previousLocation_last {gap : Gap} {departure : Instant} {early : List (Option Nat)}
    (met : gap.Met p pool v departure before after) (locates : pool.Locates before)
    (front : before.mapM (p.stopLocation pool) = .ok early) :
    ∃ earlier, v.depot :: early = earlier ++ [gap.previousLocation] := by
  obtain ⟨visits, comes⟩ := met.comes
  exact Route.visitsFrom_ends locates front comes

/-- The only gap of a route without stops lies between the depot and the end. -/
theorem Gap.Met.leaves_home {gap : Gap} {departure : Instant} {location : Nat} {detour : Rat}
    (met : gap.Met p pool v departure before after) (empty : [] = before ++ after)
    (detours : p.detourCost v gap.previousLocation location gap.nextLocation = .ok detour) :
    ∃ cost, p.travelCost v v.depot v.endLocation = .ok cost := by
  obtain ⟨rfl, rfl⟩ := List.append_eq_nil_iff.mp empty.symm
  obtain ⟨visits, comes⟩ := met.comes
  simp only [Route.visitsFrom, Except.ok.injEq, Prod.mk.injEq] at comes
  simp only [Problem.detourCost, bind_eq_ok] at detours
  rcases detours with ⟨direct, travels, _⟩
  rw [met.nextLocation_eq, ← comes.2.1] at travels
  exact ⟨direct, travels⟩

/-- A detour in a gap of a route makes its way longer. -/
theorem Gap.Met.wayCost_detour {gap : Gap} {departure : Instant} {location : Nat} {cost detour : Rat}
    {early late : List (Option Nat)} (met : gap.Met p pool v departure before after)
    (locates : pool.Locates (before ++ after)) (front : before.mapM (p.stopLocation pool) = .ok early)
    (back : after.mapM (p.stopLocation pool) = .ok late)
    (costs : p.wayCost v (v.depot :: (early ++ late ++ [v.endLocation])) = .ok cost)
    (detours : p.detourCost v gap.previousLocation location gap.nextLocation = .ok detour) :
    p.wayCost v (v.depot :: (early ++ some location :: late ++ [v.endLocation])) =
      .ok (cost + detour) := by
  obtain ⟨earlier, leads⟩ :=
    met.previousLocation_last (locates.mono (List.subset_append_left before after)) front
  obtain ⟨later, follows⟩ :=
    Problem.headsFor_begins (locates.mono (List.subset_append_right before after)) back met.heads
  rw [List.append_assoc, follows] at costs
  rw [List.append_assoc, List.cons_append, follows]
  exact Problem.wayCost_detour_behind leads costs detours

end

/-! ### The vehicle of an offer -/

section

variable {p : Problem Rat} {pool : BasePool} {v home : Vehicle Rat} {route : Route}

/-- Home is where a vehicle sets out from, or nowhere. -/
theorem Problem.travelCost_home {cost : Rat}
    (travels : p.travelCost v v.depot v.endLocation = .ok cost) : cost = 0 := by
  unfold Vehicle.endLocation at travels
  split_ifs at travels with returns
  · cases depot : v.depot with
    | none =>
        rw [depot] at travels
        cases travels
        rfl
    | some location =>
        rw [depot] at travels
        simp only [travelCost, lookUp] at travels
        split at travels
        · rw [TravelTable.cost_self] at travels
          cases travels
          rfl
        · cases travels
  · cases depot : v.depot with
    | none =>
        rw [depot] at travels
        cases travels
        rfl
    | some location =>
        rw [depot] at travels
        cases travels
        rfl

/-- For the vehicle of an offer the way of a route costs as much as for the one that the route has,
and what the switch is charged at.  Where there are no stops, nothing is charged. -/
theorem RouteTrial.wayCost_eq {t : RouteTrial Rat} {before routeCost : Rat}
    (locates : pool.Locates route.stops) (drives : p.vehicle route.vehicle = .ok home)
    (driven : p.vehicle t.vehicleId = .ok t.vehicle) (profile : t.vehicle.profile = home.profile)
    (costs : route.transportCost p pool = .ok before)
    (switches : t.switchCost p pool route = .ok routeCost)
    (leaves : route.stops = [] →
      ∃ cost, p.travelCost t.vehicle t.vehicle.depot t.vehicle.endLocation = .ok cost) :
    ∃ places, route.stops.mapM (p.stopLocation pool) = .ok places ∧
      p.wayCost t.vehicle (t.vehicle.depot :: (places ++ [t.vehicle.endLocation])) =
        .ok (before + routeCost) := by
  cases whole : route.stops with
  | nil =>
      obtain ⟨cost, travels⟩ := leaves whole
      cases Problem.travelCost_home travels
      have idle : before = 0 := by
        rw [Route.transportCost, Route.isEmpty, whole] at costs
        cases costs
        rfl
      have same : routeCost = 0 := by
        rw [RouteTrial.switchCost, whole] at switches
        cases switches
        rfl
      refine ⟨[], rfl, Problem.wayCost_cons_cons.mpr ⟨0, 0, travels, rfl, ?_⟩⟩
      rw [idle, same]
  | cons firstStop rest =>
      have stays : route.stops ≠ [] := by
        rw [whole]
        exact List.cons_ne_nil firstStop rest
      obtain ⟨places, lie, way⟩ := (Route.transportCost_eq_ok locates stays drives).mp costs
      have begins : route.stops.head? = some firstStop := by rw [whole, List.head?_cons]
      have ends : route.stops.getLast? = some (route.stops.getLast stays) :=
        List.getLast?_eq_some_getLast stays
      rw [RouteTrial.switchCost, begins, ends] at switches
      refine ⟨places, whole ▸ lie, ?_⟩
      split_ifs at switches with another
      · obtain ⟨first, last, there, behind, leads, closes⟩ :=
          Problem.stopLocations_ends lie begins ends
        simp only [there, behind, drives, RouteTrial.accessCost, bind_eq_ok, Except.ok.injEq,
          exists_eq_left'] at switches
        rcases switches with ⟨_, ⟨access, goes, egress, comes, rfl⟩, _, ⟨accessToo, goesToo,
          egressToo, comesToo, rfl⟩, rfl⟩
        obtain ⟨_, inner, _, went, along, came, rfl⟩ := (Problem.wayCost_between leads closes).mp way
        cases goesToo.symm.trans went
        cases comesToo.symm.trans came
        refine (Problem.wayCost_between leads closes).mpr ⟨access, inner, egress, goes, ?_, comes, ?_⟩
        · rw [Problem.wayCost_eq_of_profile profile]
          exact along
        · ring
      · cases switches
        have own : route.vehicle = t.vehicleId := by
          simpa [RouteTrial.switchesVehicle] using another
        rw [own] at drives
        cases drives.symm.trans driven
        rw [add_zero]
        exact way

/-- Before the stops of a proposal are inserted, the vehicle is switched if it is another one. -/
theorem Survey.makeChanges_propose {t : RouteTrial Rat} {plan : Plan Rat}
    (found : plan.routes[t.route]? = some route) (position trip : Nat) :
    ∃ switched now, switched.routes[t.route]? = some now ∧ now.vehicle = t.vehicleId ∧
      now.stops = route.stops ∧ switched.pool = plan.pool ∧
      switched.unassigned = plan.unassigned ∧
      ∀ changes last, makeChanges changes switched = .ok () last →
        makeChanges (propose t route position trip changes).changes plan = .ok () last := by
  by_cases another : t.switchesVehicle route = true
  · let now : Route := { route with vehicle := t.vehicleId, fixedDeparture := some t.departure }
    have switches : plan.switchVehicle t.route t.vehicleId t.departure =
        .ok (plan.setRoute t.route now) := by
      simp only [Plan.switchVehicle, bind_eq_ok, route_eq_ok]
      exact ⟨route, found, rfl⟩
    refine ⟨plan.setRoute t.route now, now, routes_setRoute_self found, rfl, rfl, rfl, rfl,
      fun changes last makes => ?_⟩
    rw [propose, if_pos another]
    exact makeChanges_cons_answers.mpr ⟨_, switches, makes⟩
  · have own : route.vehicle = t.vehicleId := by
      simpa [RouteTrial.switchesVehicle] using another
    refine ⟨plan, route, found, own, rfl, rfl, rfl, fun changes last makes => ?_⟩
    rw [propose, if_neg another]
    exact makes

end

/-! ### What an offer costs -/

section

variable {s : Survey Rat} {r job vehicle : Nat} {departure : Instant} {known : Bound Rat}
  {offer : Offer Rat} {route : Route} {v home : Vehicle Rat} {d : Destination Rat}
  {before routeCost : Rat}

/-- Without windows none is missed. -/
theorem Trial.windowCost_windowless {t : Trial Rat} {cost : Rat}
    (windowless : s.problem.hasWindows = false)
    (windows : t.windowCost s.problem s.pricing s.plan = .ok cost) : cost = 0 := by
  unfold Trial.windowCost at windows
  split at windows
  · cases windows
    rfl
  · rw [windowless] at windows
    cases windows
    rfl

/-- An offer was carried out, and its route costs as much more as was said. -/
def Offer.Exact (s : Survey Rat) (r vehicle : Nat) (before : Rat) (offer : Offer Rat) : Prop :=
  ∃ next now after, offer.proposal.apply s.plan = .ok () next ∧ next.routes[r]? = some now ∧
    now.vehicle = vehicle ∧ now.transportCost s.problem next.pool = .ok after ∧
    offer.cost = after - before

/-- An offer was carried out.  The vehicle of the route was switched, and then stops were put into
it, so that it visits the given ones. -/
def Offer.Puts (s : Survey Rat) (r vehicle : Nat) (stops : List Stop) (offer : Offer Rat)
    (next : Plan Rat) : Prop :=
  ∃ switched now, now.vehicle = vehicle ∧ switched.pool = s.plan.pool ∧
    Inserts r now stops switched next ∧ offer.proposal.apply s.plan = .ok () next

/-- Once new stops stand between those of the route, the way past all of them is what the route
costs. -/
theorem Offer.Puts.exact {front behind new : List Stop} {early between late : List (Option Nat)}
    {next : Plan Rat} {after : Rat}
    (puts : offer.Puts s r vehicle (front ++ (new ++ behind)) next)
    (split : route.stops = front ++ behind) (locates : s.plan.pool.Locates route.stops)
    (taken : ∀ b, .base b ∈ route.stops → s.plan.pool.isFree b = false)
    (driven : s.problem.vehicle vehicle = .ok v) (located : next.pool.Locates new)
    (stays : new ≠ []) (ahead : front.mapM (s.problem.stopLocation s.plan.pool) = .ok early)
    (there : new.mapM (s.problem.stopLocation next.pool) = .ok between)
    (back : behind.mapM (s.problem.stopLocation s.plan.pool) = .ok late)
    (way : s.problem.wayCost v (v.depot :: (early ++ (between ++ late) ++ [v.endLocation])) =
      .ok after) (price : offer.cost = after - before) : offer.Exact s r vehicle before := by
  obtain ⟨switched, now, own, pool, inserts, applied⟩ := puts
  have bases : ∀ b, .base b ∈ front ++ behind → next.pool.base b = s.plan.pool.base b := by
    intro b member
    rw [← split] at member
    rw [inserts.bases b (pool ▸ taken b member), pool]
  have inFront : ∀ b, .base b ∈ front → next.pool.base b = s.plan.pool.base b := fun b member =>
    bases b (List.mem_append_left behind member)
  have inBack : ∀ b, .base b ∈ behind → next.pool.base b = s.plan.pool.base b := fun b member =>
    bases b (List.mem_append_right front member)
  rw [split] at locates
  have locatesFront := (locates.mono (List.subset_append_left front behind)).congr inFront
  have locatesBack := (locates.mono (List.subset_append_right front behind)).congr inBack
  have nonempty : front ++ (new ++ behind) ≠ [] := by simp [stays]
  let final : Route := { now with stops := front ++ (new ++ behind) }
  have drivenNow : s.problem.vehicle final.vehicle = .ok v := own ▸ driven
  have lie : (front ++ (new ++ behind)).mapM (s.problem.stopLocation next.pool) =
      .ok (early ++ (between ++ late)) := by
    rw [← Problem.stopLocations_congr inFront] at ahead
    rw [← Problem.stopLocations_congr inBack] at back
    have later := Problem.stopLocations_append.mpr ⟨between, late, there, back, rfl⟩
    exact Problem.stopLocations_append.mpr ⟨early, between ++ late, ahead, later, rfl⟩
  have locatesNow : next.pool.Locates final.stops :=
    locatesFront.append (located.append locatesBack)
  have costsNow : final.transportCost s.problem next.pool = .ok after :=
    (Route.transportCost_eq_ok locatesNow nonempty drivenNow).mpr ⟨_, lie, way⟩
  exact ⟨next, final, after, applied, inserts.found, own, costsNow, price⟩

/-- A job is put into the trip that it joins. -/
theorem Survey.JoinsIn.puts {front behind : List Stop} {gap : Gap}
    (found : s.plan.routes[r]? = some route) (waits : job ∈ s.plan.unassigned)
    (joins : s.JoinsIn ⟨r, vehicle, v, departure, .destination job⟩ route job d routeCost front
      behind gap offer) :
    ∃ next, offer.Puts s r vehicle (front ++ ([.destination job] ++ behind)) next := by
  obtain ⟨switched, now, here, own, same, pool, unassigned, carries⟩ :=
    makeChanges_propose (t := ⟨r, vehicle, v, departure, .destination job⟩) found gap.position
      gap.trip
  have inside : front.length ≤ now.stops.length := by
    rw [same, joins.split, List.length_append]
    exact Nat.le_add_right _ _
  obtain ⟨next, inserted⟩ : ∃ next,
      switched.insertStop r front.length (.destination job) = .ok next :=
    ⟨_, insertStop_destination.mpr ⟨now, here, inside, unassigned ▸ waits, rfl⟩⟩
  have inserts := inserts_destination here (same.trans joins.split) inserted
  refine ⟨next, switched, now, own, pool, inserts, ?_⟩
  rw [apply_eq_makeChanges, joins.proposal_eq]
  apply carries
  rw [makeChanges_cons_answers, Proposal.applyChange, joins.met.position_eq]
  exact ⟨next, inserted, makeChanges_nil_answers.mpr rfl⟩

/-- A job is put behind all trips, and behind it a base. -/
theorem Survey.OpensBehind.puts {b location : Nat} {tail : Gap} {leaving arrival : Instant}
    {duration : Duration} (found : s.plan.routes[r]? = some route)
    (waits : job ∈ s.plan.unassigned) (free : s.plan.pool.isFree b = true)
    (opens : s.OpensBehind ⟨r, vehicle, v, departure, .destination job⟩ route job d b routeCost tail
      location leaving arrival duration offer) :
    ∃ (next : Plan Rat) (lies : Base),
      offer.Puts s r vehicle (route.stops ++ ([.destination job, .base b] ++ [])) next ∧
      next.pool.base b = .ok (lies.place location duration) := by
  obtain ⟨switched, now, here, own, same, pool, unassigned, carries⟩ :=
    makeChanges_propose (t := ⟨r, vehicle, v, departure, .destination job⟩) found tail.position
      tail.trip
  obtain ⟨middle, insertedJob⟩ : ∃ middle,
      switched.insertStop r route.stops.length (.destination job) = .ok middle :=
    ⟨_, insertStop_destination.mpr ⟨now, here, same ▸ Nat.le_refl _, unassigned ▸ waits, rfl⟩⟩
  have first := inserts_destination here (same.trans (List.append_nil _).symm) insertedJob
  have poolThen : middle.pool = s.plan.pool := by
    obtain ⟨_, _, _, _, rfl⟩ := insertStop_destination.mp insertedJob
    exact pool
  have visitsJob : middle.Visits r ((route.stops ++ [.destination job]) ++ []) := by
    rw [List.append_nil]
    exact visits_of_route first.found
  obtain ⟨later, insertedBase⟩ := insertStop_base_answers visitsJob (poolThen ▸ free)
  obtain ⟨next, put⟩ := placeBase_answers location duration insertedBase
  obtain ⟨second, lies, placed⟩ :=
    inserts_base first.found (List.append_nil _).symm insertedBase put
  have inserts := first.trans second
  rw [List.append_assoc] at inserts
  refine ⟨next, lies, ⟨switched, now, own, pool, inserts, ?_⟩, placed⟩
  rw [apply_eq_makeChanges, opens.proposal_eq]
  apply carries
  rw [opens.met.position_eq]
  refine makeChanges_cons_answers.mpr ⟨middle, insertedJob, ?_⟩
  refine makeChanges_cons_answers.mpr ⟨later, ?_, ?_⟩
  · rw [List.length_append, List.length_singleton] at insertedBase
    exact insertedBase
  · exact makeChanges_cons_answers.mpr ⟨next, put, makeChanges_nil_answers.mpr rfl⟩

/-- A job that joins a trip. -/
theorem Survey.JoinsIn.exact {front behind : List Stop} {gap : Gap}
    (windowless : s.problem.hasWindows = false) (found : s.plan.routes[r]? = some route)
    (locates : s.plan.pool.Locates route.stops)
    (taken : ∀ b, .base b ∈ route.stops → s.plan.pool.isFree b = false)
    (waits : job ∈ s.plan.unassigned) (drives : s.problem.vehicle route.vehicle = .ok home)
    (driven : s.problem.vehicle vehicle = .ok v) (profile : v.profile = home.profile)
    (costs : route.transportCost s.problem s.plan.pool = .ok before)
    (served : s.problem.destination job = .ok d)
    (switches : RouteTrial.switchCost s.problem s.plan.pool
      ⟨r, vehicle, v, departure, .destination job⟩ route = .ok routeCost)
    (joins : s.JoinsIn ⟨r, vehicle, v, departure, .destination job⟩ route job d routeCost front
      behind gap offer) : offer.Exact s r vehicle before := by
  obtain ⟨windowCost, detour, windows, detours, price⟩ := joins.cost_eq
  cases Trial.windowCost_windowless windowless windows
  obtain ⟨places, lie, way⟩ := RouteTrial.wayCost_eq locates drives driven profile costs switches
    fun whole => joins.met.leaves_home (whole ▸ joins.split) detours
  rw [joins.split] at lie
  obtain ⟨early, late, ahead, back, rfl⟩ := Problem.stopLocations_append.mp lie
  have around := joins.met.wayCost_detour (joins.split ▸ locates) ahead back way detours
  obtain ⟨next, puts⟩ := joins.puts found waits
  have there : [Stop.destination job].mapM (s.problem.stopLocation next.pool) =
      .ok [some d.location] :=
    mapM_cons_eq_ok.mpr ⟨_, _, stopLocation_destination.mpr ⟨d, served, rfl⟩, rfl, rfl⟩
  apply puts.exact joins.split locates taken driven (next.pool.locates_destination job)
    (List.cons_ne_nil _ _) ahead there back around
  rw [price]
  ring

/-- A job that opens a trip, which a base closes. -/
theorem Survey.OpensBehind.exact {b location : Nat} {tail : Gap} {leaving arrival : Instant}
    {duration : Duration} (windowless : s.problem.hasWindows = false)
    (found : s.plan.routes[r]? = some route) (locates : s.plan.pool.Locates route.stops)
    (taken : ∀ b, .base b ∈ route.stops → s.plan.pool.isFree b = false)
    (waits : job ∈ s.plan.unassigned) (drives : s.problem.vehicle route.vehicle = .ok home)
    (driven : s.problem.vehicle vehicle = .ok v) (profile : v.profile = home.profile)
    (costs : route.transportCost s.problem s.plan.pool = .ok before)
    (served : s.problem.destination job = .ok d)
    (switches : RouteTrial.switchCost s.problem s.plan.pool
      ⟨r, vehicle, v, departure, .destination job⟩ route = .ok routeCost)
    (free : s.plan.pool.isFree b = true)
    (opens : s.OpensBehind ⟨r, vehicle, v, departure, .destination job⟩ route job d b routeCost tail
      location leaving arrival duration offer) : offer.Exact s r vehicle before := by
  obtain ⟨baseDetour, jobDetour, windowCost, bases, jobs, windows, price⟩ := opens.cost_eq
  cases Trial.windowCost_windowless windowless windows
  obtain ⟨places, lie, way⟩ := RouteTrial.wayCost_eq locates drives driven profile costs switches
    fun whole => opens.met.leaves_home (by rw [whole]; rfl) bases
  obtain ⟨earlier, leads⟩ := opens.met.previousLocation_last locates lie
  have nowhere : ([] : List Stop).mapM (s.problem.stopLocation s.plan.pool) = .ok [] := rfl
  have ends : places ++ [] ++ [v.endLocation] = places ++ [v.endLocation] := by rw [List.append_nil]
  have closed := opens.met.wayCost_detour (by rwa [List.append_nil]) lie nowhere (ends ▸ way) bases
  rw [List.append_assoc, List.singleton_append] at closed
  have around := Problem.wayCost_detour_behind leads closed jobs
  obtain ⟨next, lies, puts, placed⟩ := opens.puts found waits free
  have stands : next.pool.locationOf b = some location := BasePool.locationOf_eq placed
  have located : next.pool.Locates [.destination job, .base b] := by
    intro c member
    cases List.mem_singleton.mp ((List.mem_cons.mp member).resolve_left Stop.noConfusion)
    exact ⟨location, stands⟩
  have there : [Stop.destination job, .base b].mapM (s.problem.stopLocation next.pool) =
      .ok [some d.location, some location] := by
    have first : s.problem.stopLocation next.pool (.destination job) = .ok (some d.location) :=
      stopLocation_destination.mpr ⟨d, served, rfl⟩
    have second : [Stop.base b].mapM (s.problem.stopLocation next.pool) = .ok [some location] :=
      mapM_cons_eq_ok.mpr ⟨_, [], stopLocation_of_locationOf stands, rfl, rfl⟩
    exact mapM_cons_eq_ok.mpr ⟨some d.location, [some location], first, second, rfl⟩
  apply puts.exact (List.append_nil route.stops).symm locates taken driven located
    (List.cons_ne_nil _ _) lie there nowhere
  · rw [List.append_assoc]
    exact around
  · rw [price]
    ring

/-- Where no destination wants to be reached at a certain time, an offer costs what the route then
costs more.  The vehicle may be another one of the same profile, and the route may be empty. -/
theorem cheapest_costExact (windowless : s.problem.hasWindows = false)
    (found : s.plan.routes[r]? = some route) (locates : s.plan.pool.Locates route.stops)
    (taken : ∀ b, .base b ∈ route.stops → s.plan.pool.isFree b = false)
    (waits : job ∈ s.plan.unassigned) (drives : s.problem.vehicle route.vehicle = .ok home)
    (driven : s.problem.vehicle vehicle = .ok v) (profile : v.profile = home.profile)
    (costs : route.transportCost s.problem s.plan.pool = .ok before)
    (done : s.cheapest r job vehicle departure known = .ok (some offer)) :
    ∃ next now after, offer.proposal.apply s.plan = .ok () next ∧ next.routes[r]? = some now ∧
      now.vehicle = vehicle ∧ now.transportCost s.problem next.pool = .ok after ∧
      offer.cost = after - before := by
  obtain ⟨_, _, d, routeCost, foundAgain, drivenAgain, served, _, switches, either⟩ :=
    Survey.cheapest_eq_some done
  cases found.symm.trans foundAgain
  cases driven.symm.trans drivenAgain
  rcases either with ⟨bound, scanned⟩ | ⟨b, bound, lowest, opened⟩
  · obtain ⟨front, behind, gap, joins⟩ := Survey.scanTrips_joinsIn scanned
    exact joins.exact windowless found locates taken waits drives driven profile costs served
      switches
  · obtain ⟨tail, location, leaving, arrival, duration, opens⟩ := Survey.openTrip_opensBehind opened
    exact opens.exact windowless found locates taken waits drives driven profile costs served
      switches (BasePool.isFree_of_lowestFree? lowest)

end

/-- Two jobs and a larger vehicle that sets out from the site and stays where it ends up. -/
def twoVehicles : Problem Rat :=
  { twoJobs with
    vehicles := twoJobs.vehicles.push ⟨"w", 0, none, ⟨[20]⟩, none, some 3, false, none, none⟩ }

/-- The route of the first vehicle costs six.  With the other vehicle and the second job it costs
four. -/
theorem cheapest_costExact_twoVehicles :
    ∃ (s : Survey Rat) (route : Route) (offer : Offer Rat), s.problem = twoVehicles ∧
      s.plan.routes[0]? = some route ∧ route.vehicle = 0 ∧ route.stops = [.destination 0, .base 0] ∧
      route.transportCost s.problem s.plan.pool = .ok 6 ∧
      s.cheapest 0 1 1 .epoch none = .ok (some offer) ∧ offer.cost = -2 ∧
      ∃ (next : Plan Rat) (now : Route) (after : Rat),
        offer.proposal.apply s.plan = .ok () next ∧ next.routes[0]? = some now ∧ now.vehicle = 1 ∧
        now.transportCost s.problem next.pool = .ok after ∧ -2 = after - 6 := by
  have run : (do
      let empty ← Plan.empty twoVehicles
      let served ← empty.insertStop 0 0 (.destination 0)
      let closed ← served.insertStop 0 1 (.base 0)
      let placed ← closed.placeBase 0 3 .zero
      let plan ← placed.refreshRoutes twoVehicles
      let s := (Settings.forProblem twoVehicles .standard).survey twoVehicles plan
        (.ofSites twoVehicles.sites) true
      let route ← plan.route 0
      let offer ← orOutOfTable (← s.cheapest 0 1 1 .epoch none)
      let cost ← route.transportCost twoVehicles plan.pool
      .ok ((route.vehicle, route.stops, plan.pool.isFree 0, plan.pool.locationOf 0),
        plan.unassigned.contains 1, cost, offer.cost)) =
      Except.ok ((0, [.destination 0, .base 0], false, some 3), true, 6, -2) := by
    decide +kernel
  simp only [bind_eq_ok, orOutOfTable_eq_ok, route_eq_ok] at run
  rcases run with ⟨_, _, _, _, _, _, _, _, plan, _, route, found, found?, calculated, offer, rfl, cost,
    costs, equal⟩
  simp only [Except.ok.injEq, Prod.mk.injEq, List.contains_iff_mem] at equal
  rcases equal with ⟨⟨vehicle, stops, out, lies⟩, waits, rfl, price⟩
  let s := (Settings.forProblem twoVehicles .standard).survey twoVehicles plan
    (.ofSites twoVehicles.sites) true
  have only : ∀ b, .base b ∈ route.stops → b = 0 := by simp [stops]
  have locates : plan.pool.Locates route.stops := by
    intro b member
    rw [only b member]
    exact ⟨3, lies⟩
  have taken : ∀ b, .base b ∈ route.stops → plan.pool.isFree b = false := by
    intro b member
    rw [only b member]
    exact out
  have drives : twoVehicles.vehicle route.vehicle =
      .ok ⟨"v", 0, none, ⟨[10]⟩, some ⟨[5]⟩, some 0, true, none, none⟩ := by
    rw [vehicle]
    rfl
  have driven : twoVehicles.vehicle 1 =
      .ok ⟨"w", 0, none, ⟨[20]⟩, none, some 3, false, none, none⟩ := rfl
  have windowless : twoVehicles.hasWindows = false := by decide +kernel
  have costly := cheapest_costExact (s := s) windowless found locates taken waits drives driven rfl
    costs calculated
  rw [price] at costly
  exact ⟨s, route, offer, rfl, found, vehicle, stops, costs, calculated, price, costly⟩

end Haulage

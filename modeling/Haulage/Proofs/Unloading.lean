/-
Module: Haulage.Proofs.Unloading
Purpose: What the closed trips of a plan unload at each location, as the stops and the bases say and
  as the ledger says, and whether the sites take it.
Main exports: unloadsOf, Plan.unloads, Plan.unloadings_eq, Lighter, SameLoads, Problem.Takes,
  Volumes.Counts, Volumes.Covers
-/
import Haulage.Proofs.Changes
import Haulage.Proofs.Volumes

namespace Haulage

/-! ### The closed trips of some routes -/

namespace Plan

variable {α : Type}

/-- The stops of a route, of which there are none where there is no such route. -/
def stopsOn (plan : Plan α) (r : Nat) : List Stop := ((plan.itineraries[r]?).map (·.2)).getD []

/-- The closed trips of some routes. -/
def tripsOn (plan : Plan α) (routes : List Nat) : List Trip :=
  routes.flatMap fun r => closedTrips (plan.stopsOn r)

/-- All closed trips. -/
def trips (plan : Plan α) : List Trip := plan.tripsOn plan.routeIds

variable {plan next : Plan α} {r : Nat} {routes : List Nat}

theorem Visits.stopsOn_eq {stops : List Stop} (visits : plan.Visits r stops) :
    plan.stopsOn r = stops := by
  rcases visits with ⟨vehicle, found⟩
  rw [stopsOn, found]
  rfl

theorem visits_of_mem_routeIds (member : r ∈ plan.routeIds) : plan.Visits r (plan.stopsOn r) := by
  have inside : r < plan.itineraries.length := by
    simpa [routeIds, itineraries] using member
  refine ⟨plan.itineraries[r].1, ?_⟩
  rw [stopsOn, List.getElem?_eq_getElem inside]
  rfl

theorem trips_congr (itineraries : next.itineraries = plan.itineraries) :
    next.trips = plan.trips := by
  have length := congrArg List.length itineraries
  simp only [Plan.itineraries, List.length_map] at length
  have stops (i : Nat) : next.stopsOn i = plan.stopsOn i := by rw [stopsOn, stopsOn, itineraries]
  rw [trips, Plan.trips, tripsOn, tripsOn, routeIds, routeIds, length]
  simp only [stops]

/-- The base of a closed trip is one that a route visits. -/
theorem visits_of_mem_trips {t : Trip} (member : t ∈ plan.trips) :
    ∃ i stops, plan.Visits i stops ∧ .base t.base ∈ stops := by
  obtain ⟨i, among, closed⟩ := List.mem_flatMap.mp member
  exact ⟨i, _, visits_of_mem_routeIds among, (stops_of_mem_closedTrips closed).1⟩

/-- A route that is visited next was not visited before. -/
theorem notMem_of_routeIds_eq {visited later : List Nat}
    (split : plan.routeIds = visited ++ r :: later) : r ∉ visited := by
  have once : (visited ++ r :: later).Nodup := split ▸ List.nodup_range
  intro member
  exact (List.nodup_append.mp once).2.2 r member r List.mem_cons_self rfl

theorem ChangesOnly.stopsOn_eq {i : Nat} (changes : ChangesOnly r plan next) (apart : r ≠ i) :
    next.stopsOn i = plan.stopsOn i := by
  rw [stopsOn, stopsOn, changes.others apart]

theorem ChangesOnly.routeIds_eq (changes : ChangesOnly r plan next) :
    next.routeIds = plan.routeIds := by
  have same := changes.length_eq
  simp only [itineraries, List.length_map] at same
  rw [routeIds, routeIds, same]

end Plan

/-! ### Loads that weigh no more than others -/

/-- Loads that are nowhere but where the others are, and nowhere add up to more. -/
structure Lighter (loads others : List (Nat × Load Rat)) : Prop where
  locations : ∀ load ∈ loads, ∃ other ∈ others, other.1 = load.1
  amounts : ∀ location i, loadAt loads location i ≤ loadAt others location i

namespace Lighter

variable {loads others more rest : List (Nat × Load Rat)}

theorem refl (loads : List (Nat × Load Rat)) : Lighter loads loads :=
  ⟨fun load member => ⟨load, member, rfl⟩, fun _ _ => le_refl _⟩

theorem trans (first : Lighter loads others) (second : Lighter others more) :
    Lighter loads more := by
  refine ⟨fun load member => ?_, fun location i =>
    (first.amounts location i).trans (second.amounts location i)⟩
  obtain ⟨other, among, same⟩ := first.locations load member
  obtain ⟨last, there, equal⟩ := second.locations other among
  exact ⟨last, there, equal.trans same⟩

theorem append (first : Lighter loads others) (second : Lighter more rest) :
    Lighter (loads ++ more) (others ++ rest) := by
  constructor
  · intro load member
    rcases List.mem_append.mp member with here | there
    · obtain ⟨other, among, same⟩ := first.locations load here
      exact ⟨other, List.mem_append_left _ among, same⟩
    · obtain ⟨other, among, same⟩ := second.locations load there
      exact ⟨other, List.mem_append_right _ among, same⟩
  · intro location i
    rw [loadAt_append, loadAt_append]
    exact add_le_add (first.amounts location i) (second.amounts location i)

theorem of_perm (same : loads.Perm others) : Lighter loads others :=
  ⟨fun load member => ⟨load, same.mem_iff.mp member, rfl⟩,
    fun _ _ => le_of_eq (same.map _).sum_eq⟩

end Lighter

/-- More loads in the middle are as good as more loads at the end. -/
theorem perm_middle_extra (first was last extra : List (Nat × Load Rat)) :
    (first ++ (was ++ last) ++ extra).Perm (first ++ ((was ++ extra) ++ last)) := by
  rw [List.append_assoc, List.append_assoc, List.append_assoc]
  exact (List.perm_append_comm.append_left was).append_left first

theorem Lighter.middle {now was extra : List (Nat × Load Rat)} (own : Lighter now (was ++ extra))
    (first last : List (Nat × Load Rat)) :
    Lighter (first ++ (now ++ last)) (first ++ (was ++ last) ++ extra) :=
  ((Lighter.refl first).append (own.append (Lighter.refl last))).trans
    (.of_perm (perm_middle_extra first was last extra).symm)

/-- Loads that are where the others are, and add up to the same everywhere. -/
structure SameLoads (loads others : List (Nat × Load Rat)) : Prop where
  lighter : Lighter loads others
  heavier : Lighter others loads

namespace SameLoads

variable {loads others now was extra : List (Nat × Load Rat)}

theorem refl (loads : List (Nat × Load Rat)) : SameLoads loads loads := ⟨.refl _, .refl _⟩

theorem amounts (same : SameLoads loads others) (location i : Nat) :
    loadAt loads location i = loadAt others location i :=
  le_antisymm (same.lighter.amounts location i) (same.heavier.amounts location i)

theorem middle (own : SameLoads now (was ++ extra)) (first last : List (Nat × Load Rat)) :
    SameLoads (first ++ (now ++ last)) (first ++ (was ++ last) ++ extra) :=
  ⟨own.lighter.middle first last,
    (Lighter.of_perm (perm_middle_extra first was last extra)).trans
      ((Lighter.refl first).append (own.heavier.append (Lighter.refl last)))⟩

end SameLoads

/-! ### Sites that take the loads -/

/-- Where something is unloaded and the volume of the day is limited, the loads keep to the
limit. -/
def Problem.Takes (p : Problem Rat) (loads : List (Nat × Load Rat)) : Prop :=
  ∀ location capacity, p.dailyCapacity location = some capacity →
    (∃ load ∈ loads, load.1 = location) → ∀ i, loadAt loads location i ≤ capacity.get i

namespace Problem.Takes

variable {p : Problem Rat} {loads others : List (Nat × Load Rat)}

theorem mono (takes : p.Takes others) (lighter : Lighter loads others) : p.Takes loads := by
  rintro location capacity limit ⟨load, member, rfl⟩ i
  exact (lighter.amounts _ i).trans (takes _ capacity limit (lighter.locations load member) i)

theorem append {location : Nat} {load : Load Rat} (takes : p.Takes loads)
    (room : ∀ capacity, p.dailyCapacity location = some capacity →
      ∀ i, loadAt loads location i + load.get i ≤ capacity.get i) :
    p.Takes (loads ++ [(location, load)]) := by
  rintro other capacity limit ⟨used, member, rfl⟩ i
  rw [loadAt_append, loadAt_cons, loadAt_nil, add_zero]
  by_cases same : location = used.1
  · rw [if_pos same]
    exact same ▸ room capacity (same ▸ limit) i
  · rw [if_neg same, add_zero]
    refine takes used.1 capacity limit ⟨used, ?_, rfl⟩ i
    rcases List.mem_append.mp member with here | there
    · exact here
    · exact absurd (congrArg Prod.fst (List.mem_singleton.mp there)).symm same

end Problem.Takes

/-! ### Volumes that stand for the loads -/

namespace Volumes

/-- The volumes are no less than the loads. -/
def Covers (vs : Volumes Rat) (loads : List (Nat × Load Rat)) : Prop :=
  ∀ location i, loadAt loads location i ≤ (vs.volumeAt location).get i

/-- The volumes are the loads, all of which lie where volumes are tracked. -/
structure Counts (vs : Volumes Rat) (loads : List (Nat × Load Rat)) : Prop where
  tracks : ∀ load ∈ loads, (vs.tracked? load.1).isSome = true
  amounts : ∀ location i, (vs.volumeAt location).get i = loadAt loads location i

variable {p : Problem Rat} {vs next : Volumes Rat} {loads others : List (Nat × Load Rat)}
  {location : Nat} {load : Load Rat}

theorem Counts.covers (counts : vs.Counts loads) : vs.Covers loads :=
  fun location i => le_of_eq (counts.amounts location i).symm

theorem Counts.congr (counts : vs.Counts others) (same : SameLoads loads others) :
    vs.Counts loads := by
  refine ⟨fun load member => ?_, fun location i => ?_⟩
  · obtain ⟨other, among, equal⟩ := same.lighter.locations load member
    exact equal ▸ counts.tracks other among
  · rw [counts.amounts, same.amounts]

theorem Counts.add (counts : vs.Counts loads) (done : vs.add location load = .ok next) :
    next.Counts (loads ++ [(location, load)]) := by
  have limits := sameLimits_add done
  refine ⟨fun used member => ?_, fun other i => ?_⟩
  · rw [limits.isSome_eq]
    rcases List.mem_append.mp member with earlier | last
    · exact counts.tracks used earlier
    · obtain ⟨e, found, _⟩ := add_eq_ok done
      obtain rfl := List.mem_singleton.mp last
      rw [found]
      rfl
  · rw [get_volumeAt_add done, counts.amounts, loadAt_append, loadAt_cons, loadAt_nil, add_zero]

theorem counts_clear (vs : Volumes Rat) : vs.clear.Counts [] := by
  refine ⟨fun _ member => absurd member List.not_mem_nil, fun location i => ?_⟩
  rw [volumeAt_clear, Load.get_empty]
  rfl

/-- Adding loads one after the other counts them all, and fails only where nothing is tracked. -/
theorem addAll_counts (counts : vs.Counts others) (loads : List (Nat × Load Rat)) :
    Attempt.Ends (addAll loads) (fun _ next => SameLimits vs next ∧ next.Counts (others ++ loads))
      (fun _ _ => ∃ load ∈ loads, (vs.tracked? load.1).isSome = false) vs := by
  induction loads generalizing vs others with
  | nil => exact ⟨fun _ => rfl, by simpa using counts⟩
  | cons load loads inductionHypothesis =>
      apply (Attempt.ends_bind _ _).mpr
      simp only [Attempt.ends_bind, Attempt.ends_get, Attempt.ends_ofResult, Attempt.ends_set]
      refine ⟨fun next added => ?_, fun e failed => ⟨load, List.mem_cons_self, ?_⟩⟩
      · have limits := sameLimits_add added
        apply (inductionHypothesis (counts.add added)).mono
        · intro _ last kept
          exact ⟨limits.trans kept.1, by simpa using kept.2⟩
        · rintro _ _ ⟨other, member, untracked⟩
          exact ⟨other, List.mem_cons_of_mem load member, limits.isSome_eq other.1 ▸ untracked⟩
      · rw [tracked?_of_add_eq_error failed]
        rfl

theorem Covers.mono (covers : vs.Covers others) (lighter : Lighter loads others) :
    vs.Covers loads := fun location i => (lighter.amounts location i).trans (covers location i)

theorem Covers.add (covers : vs.Covers loads) (done : vs.add location load = .ok next) :
    next.Covers (loads ++ [(location, load)]) := by
  intro other i
  rw [get_volumeAt_add done, loadAt_append, loadAt_cons, loadAt_nil, add_zero]
  exact add_le_add_left (covers other i) _

theorem covers_clear (vs : Volumes Rat) : vs.clear.Covers [] := (counts_clear vs).covers

/-- A load that is let in keeps to the limit together with the loads that are there. -/
theorem Covers.takes (covers : vs.Covers loads) (follows : vs.Follows p) (takes : p.Takes loads)
    (loadable : vs.isLoadable location load = .ok true) :
    p.Takes (loads ++ [(location, load)]) := by
  obtain ⟨e, found, room⟩ := isLoadable_eq_true.mp loadable
  apply takes.append
  intro capacity limit i
  have fits := Load.fits_iff_get.mp (room capacity (by
    rw [follows.capacity_eq location e found, limit])) i
  have there := covers location i
  rw [volumeAt, found] at there
  rw [Load.get_add] at fits
  exact (add_le_add_left there _).trans fits

end Volumes

/-! ### What trips unload -/

section

variable (p : Problem Rat) (pool : BasePool)

/-- Where a trip unloads, with the demands of its jobs.  A trip whose base lies nowhere unloads
nothing. -/
def unloadOf (t : Trip) : Option (Nat × Load Rat) :=
  (pool.locationOf t.base).map fun location => (location, p.demandOf t.jobs)

/-- What some trips unload. -/
def unloadsOf (trips : List Trip) : List (Nat × Load Rat) := trips.filterMap (unloadOf p pool)

@[simp] theorem unloadsOf_nil : unloadsOf p pool [] = [] := rfl

@[simp] theorem unloadsOf_append (trips others : List Trip) :
    unloadsOf p pool (trips ++ others) = unloadsOf p pool trips ++ unloadsOf p pool others :=
  List.filterMap_append

theorem unloadsOf_cons (t : Trip) (trips : List Trip) :
    unloadsOf p pool (t :: trips) = (unloadOf p pool t).toList ++ unloadsOf p pool trips := by
  rw [unloadsOf, List.filterMap_cons]
  cases unloadOf p pool t with
  | none => rfl
  | some load => rfl

end

theorem unloadsOf_congr {p : Problem Rat} {pool other : BasePool} {trips : List Trip}
    (same : ∀ t ∈ trips, other.locationOf t.base = pool.locationOf t.base) :
    unloadsOf p other trips = unloadsOf p pool trips :=
  List.filterMap_congr fun t member => by rw [unloadOf, unloadOf, same t member]

/-! ### Trips that unload less -/

section

variable {p : Problem Rat} {pool : BasePool}

/-- A trip with the same base and no more to unload. -/
theorem lighter_trip {t other : Trip} (base : t.base = other.base)
    (less : ∀ i, (p.demandOf t.jobs).get i ≤ (p.demandOf other.jobs).get i) :
    Lighter (unloadOf p pool t).toList (unloadOf p pool other).toList := by
  rw [unloadOf, unloadOf, base]
  cases pool.locationOf other.base with
  | none => exact .refl []
  | some location =>
      refine ⟨by simp, fun place i => ?_⟩
      simp only [Option.map_some, Option.toList_some, loadAt_cons, loadAt_nil, add_zero]
      split
      · exact less i
      · exact le_refl 0

/-- Some of the trips weigh no more than all of them. -/
theorem lighter_sublist (adds : p.DemandsAdd) {trips others : List Trip}
    (fewer : trips.Sublist others) :
    Lighter (unloadsOf p pool trips) (unloadsOf p pool others) := by
  induction fewer with
  | slnil => exact .refl []
  | cons_cons t _ inductionHypothesis =>
      rw [unloadsOf_cons, unloadsOf_cons]
      exact (Lighter.refl _).append inductionHypothesis
  | cons t _ inductionHypothesis =>
      rw [unloadsOf_cons]
      refine inductionHypothesis.trans ⟨fun load member =>
        ⟨load, List.mem_append_right _ member, rfl⟩, fun location i => ?_⟩
      rw [loadAt_append]
      apply le_add_of_nonneg_left
      rw [unloadOf]
      cases pool.locationOf t.base with
      | none => simp
      | some place =>
          simp only [Option.map_some, Option.toList_some, loadAt_cons, loadAt_nil, add_zero]
          split
          · simpa using Problem.get_demandOf_sublist adds (List.nil_sublist t.jobs) i
          · exact le_refl 0

/-- A job that is put into a route adds its demand where its trip unloads, and nothing else. -/
theorem sameLoads_insert (pool : BasePool) (job : Nat) (before after : List Stop) :
    pool.placeOf (before ++ .destination job :: after) (basesIn before) =
        pool.placeOf (before ++ after) (basesIn before) ∧
      SameLoads (unloadsOf p pool (closedTrips (before ++ .destination job :: after)))
        (unloadsOf p pool (closedTrips (before ++ after)) ++
          ((pool.placeOf (before ++ after) (basesIn before)).map
            fun location => (location, p.demand job)).toList) := by
  rw [BasePool.placeOf, BasePool.placeOf]
  rcases takesUp_insert job before after with
    ⟨closed, _, number⟩ | ⟨first, last, trip, joined, was, is, number, base, served, _⟩
  · rw [← closedTrips, ← closedTrips] at closed
    rw [← closedTrips] at number
    rw [closed, List.getElem?_eq_none (Nat.le_of_eq number)]
    exact ⟨rfl, by simpa using SameLoads.refl _⟩
  · rw [← closedTrips] at was is
    have here (t : Trip) : (first ++ t :: last)[basesIn before]? = some t := by
      rw [← number, List.getElem?_append_right (Nat.le_refl _), Nat.sub_self]
      rfl
    rw [was, is, here, here, Option.bind_some, Option.bind_some, base]
    refine ⟨rfl, ?_⟩
    rw [unloadsOf_append, unloadsOf_append, unloadsOf_cons, unloadsOf_cons]
    refine SameLoads.middle ?_ _ _
    rw [unloadOf, unloadOf, base]
    cases pool.locationOf trip.base with
    | none => exact .refl []
    | some location =>
        have amounts (other i : Nat) :
            loadAt [(location, p.demandOf joined.jobs)] other i =
              loadAt [(location, p.demandOf trip.jobs), (location, p.demand job)] other i := by
          have joint := Problem.get_demandOf_perm (p := p) served i
          rw [Problem.get_demandOf p (job :: _), List.map_cons, List.sum_cons,
            ← Problem.get_demandOf] at joint
          simp only [loadAt_cons, loadAt_nil, add_zero, joint]
          split
          · exact add_comm _ _
          · simp
        exact ⟨⟨by simp, fun other i => le_of_eq (amounts other i)⟩,
          ⟨by simp, fun other i => le_of_eq (amounts other i).symm⟩⟩

/-- A job that is taken out of a route adds nothing. -/
theorem lighter_erase (adds : p.DemandsAdd) (job : Nat) (before after : List Stop) :
    Lighter (unloadsOf p pool (closedTrips (before ++ after)))
      (unloadsOf p pool (closedTrips (before ++ .destination job :: after))) := by
  rcases takesUp_insert job before after with
    ⟨closed, _, _⟩ | ⟨first, last, trip, joined, was, is, _, base, served, _⟩
  · rw [closedTrips, closedTrips, closed]
    exact .refl _
  · rw [closedTrips, closedTrips, was, is, unloadsOf_append, unloadsOf_append, unloadsOf_cons,
      unloadsOf_cons]
    refine (Lighter.refl _).append ((lighter_trip base.symm fun i => ?_).append (.refl _))
    rw [Problem.get_demandOf_perm served i]
    exact Problem.get_demandOf_sublist adds (List.sublist_cons_self job trip.jobs) i

/-- A trip that begins later weighs no more. -/
theorem lighter_tripsOf (adds : p.DemandsAdd) (served : List Nat) (stops : List Stop) :
    Lighter (unloadsOf p pool (closedTrips stops)) (unloadsOf p pool (tripsOf served stops).1) := by
  obtain ⟨lead, rfl | ⟨b, rest, rfl⟩⟩ := exists_lead stops
  · rw [closedTrips, tripsOf_destinations, tripsOf_destinations]
    exact .refl []
  · rw [closedTrips, tripsOf_lead, tripsOf_lead, unloadsOf_cons, unloadsOf_cons]
    have fewer (i : Nat) :=
        Problem.get_demandOf_sublist adds (List.sublist_append_right served lead) i
    have lighter : Lighter (unloadOf p pool ⟨lead, b⟩).toList
        (unloadOf p pool ⟨served ++ lead, b⟩).toList := lighter_trip rfl fewer
    exact lighter.append (.refl _)

end

namespace Plan

/-! ### Changes of a route -/

/-- A change of another route changes nothing about what some routes unload. -/
theorem ChangesAt.unloadsOn_eq {p : Problem Rat} {plan next : Plan Rat} {r : Nat}
    {routes : List Nat} (changes : ChangesAt r plan next) (absent : r ∉ routes) :
    unloadsOf p next.pool (next.tripsOn routes) = unloadsOf p plan.pool (plan.tripsOn routes) := by
  have apart : ∀ i ∈ routes, r ≠ i := fun i member same => absent (same ▸ member)
  have same : next.tripsOn routes = plan.tripsOn routes := by
    rw [tripsOn, tripsOn, List.flatMap_def, List.flatMap_def]
    refine congrArg List.flatten (List.map_congr_left fun i member => ?_)
    rw [changes.stopsOn_eq (apart i member)]
  rw [same]
  apply unloadsOf_congr
  intro t member
  obtain ⟨i, among, closed⟩ := List.mem_flatMap.mp member
  have visited := (stops_of_mem_closedTrips closed).1
  cases found : plan.itineraries[i]? with
  | none =>
      rw [stopsOn, found] at visited
      cases visited
  | some itinerary =>
      have visits : plan.Visits i itinerary.2 := ⟨itinerary.1, found⟩
      rw [visits.stopsOn_eq] at visited
      exact changes.locations i _ _ (apart i among) visits visited

/-- What the closed trips of a plan unload. -/
def unloads (p : Problem Rat) (plan : Plan Rat) : List (Nat × Load Rat) :=
  unloadsOf p plan.pool plan.trips

/-- Plans with the same stops and bases at the same locations unload the same. -/
theorem unloads_congr {p : Problem Rat} {plan next : Plan Rat}
    (itineraries : next.itineraries = plan.itineraries)
    (locations : ∀ r stops b, plan.Visits r stops → .base b ∈ stops →
      next.pool.locationOf b = plan.pool.locationOf b) : next.unloads p = plan.unloads p := by
  rw [unloads, unloads, trips_congr itineraries]
  apply unloadsOf_congr
  intro t member
  obtain ⟨i, stops, visits, visited⟩ := visits_of_mem_trips member
  exact locations i stops t.base visits visited

/-- What a plan unloads changes by what a changed route unloads. -/
theorem ChangesAt.unloads_split {p : Problem Rat} {plan next : Plan Rat} {r : Nat}
    (changes : ChangesAt r plan next) (member : r ∈ plan.routeIds) : ∃ first last,
      plan.unloads p =
        first ++ (unloadsOf p plan.pool (closedTrips (plan.stopsOn r)) ++ last) ∧
      next.unloads p =
        first ++ (unloadsOf p next.pool (closedTrips (next.stopsOn r)) ++ last) := by
  obtain ⟨first, last, split⟩ := List.append_of_mem member
  have once : (r :: (first ++ last)).Nodup :=
    List.perm_middle.nodup_iff.mp (split ▸ List.nodup_range)
  rw [List.nodup_cons, List.mem_append, not_or] at once
  have parts (plan : Plan Rat) : unloadsOf p plan.pool (plan.tripsOn (first ++ r :: last)) =
      unloadsOf p plan.pool (plan.tripsOn first) ++
        (unloadsOf p plan.pool (closedTrips (plan.stopsOn r)) ++
          unloadsOf p plan.pool (plan.tripsOn last)) := by
    simp [tripsOn]
  refine ⟨unloadsOf p plan.pool (plan.tripsOn first), unloadsOf p plan.pool (plan.tripsOn last),
    ?_, ?_⟩
  · rw [unloads, trips, split, parts]
  · rw [unloads, trips, changes.routeIds_eq, split, parts, changes.unloadsOn_eq once.1.1,
      changes.unloadsOn_eq once.1.2]

/-- A change of one route adds to what the plan unloads what it adds there. -/
theorem ChangesAt.unloads_lighter {p : Problem Rat} {plan next : Plan Rat} {r : Nat}
    {extra : List (Nat × Load Rat)} (changes : ChangesAt r plan next) (member : r ∈ plan.routeIds)
    (own : Lighter (unloadsOf p next.pool (closedTrips (next.stopsOn r)))
      (unloadsOf p plan.pool (closedTrips (plan.stopsOn r)) ++ extra)) :
    Lighter (next.unloads p) (plan.unloads p ++ extra) := by
  obtain ⟨first, last, was, is⟩ := changes.unloads_split (p := p) member
  rw [was, is]
  exact own.middle first last

/-- A change of one route that unloads no more there does not unload more at all. -/
theorem ChangesAt.unloads_lighter_of_own {p : Problem Rat} {plan next : Plan Rat} {r : Nat}
    (changes : ChangesAt r plan next) (member : r ∈ plan.routeIds)
    (own : Lighter (unloadsOf p next.pool (closedTrips (next.stopsOn r)))
      (unloadsOf p plan.pool (closedTrips (plan.stopsOn r)))) :
    Lighter (next.unloads p) (plan.unloads p) := by
  rw [← List.append_nil (plan.unloads p)]
  apply changes.unloads_lighter member
  rwa [List.append_nil]

theorem filterMap_range_eq {β γ : Type} {xs : List β} {f : Nat → Option γ} {g : β → Option γ}
    (same : ∀ i x, xs[i]? = some x → f i = g x) :
    (List.range xs.length).filterMap f = xs.filterMap g := by
  have mapped : (List.range xs.length).map f = xs.map g := by
    apply List.ext_getElem (by simp)
    intro i inside _
    have short : i < xs.length := by simpa using inside
    simpa using same i xs[i] (List.getElem?_eq_getElem short)
  have flattened := congrArg (List.filterMap id) mapped
  simpa [List.filterMap_map] using flattened

/-- The unloadings by the ledger are those of the closed trips. -/
theorem unloadings_eq {p : Problem Rat} {plan : Plan Rat} (agrees : ∀ r, plan.Agrees p r) :
    Volumes.unloadings plan = plan.unloads p := by
  rw [Volumes.unloadings, unloads, unloadsOf, trips, tripsOn, List.filterMap_flatMap,
    List.flatMap_def]
  refine congrArg List.flatten (List.map_congr_left fun r member => ?_)
  have visits := visits_of_mem_routeIds member
  rw [(agrees r).tripCount_eq visits, ← length_closedTrips]
  apply filterMap_range_eq
  intro k t closed
  have entry := (agrees r).trip_eq visits closed
  rw [Ledger.unloadLocation?, Ledger.load?, entry, unloadOf]
  cases plan.pool.locationOf t.base with
  | none => rfl
  | some location => rfl

/-- Counted anew, the volumes are those of the closed trips.  A count fails only where a trip unloads
at a location that is not tracked. -/
theorem rebuild_counts {p : Problem Rat} {plan : Plan Rat} {vs : Volumes Rat}
    (agrees : ∀ r, plan.Agrees p r) :
    Attempt.Ends (Volumes.rebuild plan)
      (fun _ next => Volumes.SameLimits vs next ∧ next.Counts (plan.unloads p))
      (fun _ _ => ∃ load ∈ plan.unloads p, (vs.tracked? load.1).isSome = false) vs := by
  simp only [Volumes.rebuild, Attempt.ends_bind, Attempt.ends_modify]
  have limits := Volumes.sameLimits_clear vs
  refine (Volumes.addAll_counts (Volumes.counts_clear vs) _).mono (fun _ next ends => ?_)
    fun _ _ failed => ?_
  · rw [List.nil_append, unloadings_eq agrees] at ends
    exact ⟨fun location => (ends.1 location).trans (limits location), ends.2⟩
  · obtain ⟨load, member, untracked⟩ := failed
    exact ⟨load, unloadings_eq agrees ▸ member, limits.isSome_eq load.1 ▸ untracked⟩

/-- Counted anew, the volumes stand for what the plan unloads. -/
theorem rebuild_covers {p : Problem Rat} {plan : Plan Rat} {vs : Volumes Rat}
    (agrees : ∀ r, plan.Agrees p r) (follows : vs.Follows p) :
    Attempt.Ends (Volumes.rebuild plan)
      (fun _ next => next.Follows p ∧ next.Covers (plan.unloads p)) (fun _ _ => True) vs :=
  (rebuild_counts agrees).mono (fun _ _ ends => ⟨ends.1.follows follows, ends.2.covers⟩)
    fun _ _ _ => trivial

end Plan

end Haulage

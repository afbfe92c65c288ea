/-
Module: Haulage.Proofs.Changes
Purpose: What a change of one route leaves alone: the other routes, what the ledger holds about them
  and where their bases lie.
Main exports: Plan.ChangesOnly, Plan.ChangesAt, Plan.Closes, Plan.Inserts, Plan.Agrees.elsewhere
-/
import Haulage.Proofs.Conservation
import Haulage.Proofs.Derived

namespace Haulage

variable {α : Type} [Quantity α]

/-! ### Bases -/

namespace BasePool

variable {pool other : BasePool} {b c : Nat}

/-- A base that is as it was lies where it lay. -/
theorem locationOf_congr (same : other.base b = pool.base b) :
    other.locationOf b = pool.locationOf b := by
  simp only [base, locationOf] at same ⊢
  cases here : pool.entries[b]? with
  | none =>
      cases there : other.entries[b]? with
      | none => rfl
      | some e => simp [here, there, orOutOfTable] at same
  | some e =>
      cases there : other.entries[b]? with
      | none => simp [here, there, orOutOfTable] at same
      | some e' =>
          simp only [here, there, orOutOfTable, Option.map_some, Except.ok.injEq] at same
          exact congrArg Base.location same

@[simp] theorem base_without (pool : BasePool) (b c : Nat) :
    (pool.without b).base c = pool.base c := by
  simp only [base, without, modifyEntry, List.getElem?_modify]
  cases pool.entries[c]? with
  | none => rfl
  | some e =>
      by_cases same : b = c
      · simp [same]
      · simp [same]

theorem base_modifyEntry_of_ne (apart : b ≠ c) (f : PoolEntry → PoolEntry) :
    (pool.modifyEntry b f).base c = pool.base c := by
  simp [base, modifyEntry, apart]

theorem locationOf_modifyEntry_of_ne (apart : b ≠ c) (f : PoolEntry → PoolEntry) :
    (pool.modifyEntry b f).locationOf c = pool.locationOf c :=
  locationOf_congr (base_modifyEntry_of_ne apart f)

theorem base_placed_self {location : Nat} {duration : Duration} (inside : b < pool.size) :
    ∃ lies : Base, (pool.placed b location duration).base b = .ok (lies.place location duration) := by
  obtain ⟨e, found⟩ : ∃ e, pool.entries[b]? = some e := ⟨_, List.getElem?_eq_getElem inside⟩
  exact ⟨e.base, by simp [base, placed, modifyEntry, found]⟩

theorem locationOf_placed_self {location : Nat} {duration : Duration} (inside : b < pool.size) :
    (pool.placed b location duration).locationOf b = some location := by
  have found : pool.entries[b]? = some pool.entries[b] := List.getElem?_eq_getElem inside
  simp [locationOf, placed, modifyEntry, found, Base.place]

/-- A refresh of the pool leaves bases that are in a route as they are. -/
theorem base_refresh {after : BasePool} {routes : List (List Stop)} {stops : List Stop}
    (done : pool.refresh routes = .ok after) (among : stops ∈ routes) (member : .base b ∈ stops) :
    after.base b = pool.base b := by
  have routed : b ∈ (routes.map fun stops => stops.filterMap (·.base?)).flatten := by
    refine List.mem_flatten.mpr ⟨_, List.mem_map.mpr ⟨stops, among, rfl⟩, ?_⟩
    exact List.mem_filterMap.mpr ⟨.base b, member, rfl⟩
  simp only [refresh] at done
  split at done
  · cases done
    simp only [base, List.getElem?_mapIdx, List.contains_iff_mem, Option.map_map]
    cases pool.entries[b]? with
    | none => rfl
    | some e => simp only [Function.comp_apply, Option.map_some, routed, if_true]
  · cases done

end BasePool

namespace Plan

/-! ### Changes of a route -/

/-- A plan in which one route was changed, and nothing in the ledger that is about another one.  The
ledger has entries for as many routes as before, or more. -/
structure ChangesOnly (r : Nat) (plan next : Plan α) : Prop where
  size_eq : next.routes.length = plan.routes.length
  routes : ∀ i : Nat, r ≠ i → next.routes[i]? = plan.routes[i]?
  entries : ∀ i : Nat, r ≠ i → next.ledger.entry i = plan.ledger.entry i
  enters : plan.ledger.routes.length ≤ next.ledger.routes.length

section

variable {r : Nat} {plan next last : Plan α}

omit [Quantity α] in
theorem ChangesOnly.length_eq (changes : ChangesOnly r plan next) :
    next.itineraries.length = plan.itineraries.length := by
  simpa [itineraries] using changes.size_eq

omit [Quantity α] in
theorem ChangesOnly.others {i : Nat} (changes : ChangesOnly r plan next) (apart : r ≠ i) :
    next.itineraries[i]? = plan.itineraries[i]? := by
  simp only [itineraries, List.getElem?_map, changes.routes i apart]

omit [Quantity α] in
theorem ChangesOnly.trans (first : ChangesOnly r plan next) (second : ChangesOnly r next last) :
    ChangesOnly r plan last :=
  ⟨second.size_eq.trans first.size_eq,
    fun i apart => (second.routes i apart).trans (first.routes i apart),
    fun i apart => (second.entries i apart).trans (first.entries i apart),
    first.enters.trans second.enters⟩

omit [Quantity α] in
theorem changesOnly_of_set (changed : ∃ new, next.routes = plan.routes.set r new)
    (ledger : next.ledger = plan.ledger) : ChangesOnly r plan next := by
  rcases changed with ⟨new, changed⟩
  exact ⟨by rw [changed, List.length_set],
    fun i apart => by rw [changed, List.getElem?_set_ne apart], fun i _ => by rw [ledger],
    by rw [ledger]⟩

omit [Quantity α] in
theorem changesOnly_of_keeps (routes : next.routes = plan.routes)
    (ledger : next.ledger = plan.ledger) : ChangesOnly r plan next :=
  ⟨by rw [routes], fun i _ => by rw [routes], fun i _ => by rw [ledger], by rw [ledger]⟩

theorem changesOnly_refreshRoute {p : Problem α} (done : plan.refreshRoute p r = .ok next) :
    ChangesOnly r plan next := by
  have entries := (refreshRoute_agrees done).2
  obtain ⟨route, fresh, entry, _, _, _, rfl⟩ := refreshRoute_eq_ok done
  exact ⟨length_setRoute _ _ _, fun i apart => routes_setRoute_of_ne apart, entries,
    Ledger.length_modifyEntry _ _ _⟩

end

/-- A base that no other route visits. -/
def Alone (plan : Plan α) (r b : Nat) : Prop :=
  ∀ i stops, r ≠ i → plan.Visits i stops → .base b ∉ stops

/-- A change of one route that leaves the bases of all other routes as they are. -/
structure ChangesAt (r : Nat) (plan next : Plan α) : Prop extends ChangesOnly r plan next where
  bases : ∀ i stops b, r ≠ i → plan.Visits i stops → .base b ∈ stops →
    next.pool.base b = plan.pool.base b

section

variable {r b : Nat} {plan next last : Plan α}

omit [Quantity α] in
theorem ChangesOnly.visits {i : Nat} {stops : List Stop} (changes : ChangesOnly r plan next)
    (apart : r ≠ i) : next.Visits i stops ↔ plan.Visits i stops := by
  rw [Visits, Visits, changes.others apart]

omit [Quantity α] in
theorem ChangesOnly.alone (changes : ChangesOnly r plan next) (alone : plan.Alone r b) :
    next.Alone r b :=
  fun i stops apart visits => alone i stops apart ((changes.visits apart).mp visits)

omit [Quantity α] in
theorem ChangesAt.locations (changes : ChangesAt r plan next) (i : Nat) (stops : List Stop)
    (b : Nat) (apart : r ≠ i) (visits : plan.Visits i stops) (member : .base b ∈ stops) :
    next.pool.locationOf b = plan.pool.locationOf b :=
  BasePool.locationOf_congr (changes.bases i stops b apart visits member)

omit [Quantity α] in
theorem ChangesAt.refl (r : Nat) (plan : Plan α) : ChangesAt r plan plan :=
  ⟨changesOnly_of_keeps rfl rfl, fun _ _ _ _ _ _ => rfl⟩

omit [Quantity α] in
theorem ChangesAt.trans (first : ChangesAt r plan next) (second : ChangesAt r next last) :
    ChangesAt r plan last := by
  refine ⟨first.toChangesOnly.trans second.toChangesOnly, fun i stops b apart visits member => ?_⟩
  have later := second.bases i stops b apart ((first.toChangesOnly.visits apart).mpr visits)
  exact (later member).trans (first.bases i stops b apart visits member)

omit [Quantity α] in
theorem ChangesOnly.changesAt (changes : ChangesOnly r plan next)
    (same : ∀ b, next.pool.base b = plan.pool.base b) : ChangesAt r plan next :=
  ⟨changes, fun _ _ b _ _ _ => same b⟩

omit [Quantity α] in
theorem ChangesAt.insertStop {position : Nat} {stop : Stop}
    (done : plan.insertStop r position stop = .ok next) : ChangesAt r plan next := by
  cases stop with
  | destination job =>
      obtain ⟨_, _, _, _, rfl⟩ := insertStop_destination.mp done
      exact ChangesOnly.changesAt (changesOnly_of_set ⟨_, rfl⟩ rfl) fun _ => rfl
  | base c =>
      obtain ⟨_, _, _, _, rfl⟩ := insertStop_base.mp done
      exact ChangesOnly.changesAt (changesOnly_of_set ⟨_, rfl⟩ rfl) (BasePool.base_without _ c)

omit [Quantity α] in
theorem ChangesAt.placeBase {location : Nat} {duration : Duration} (alone : plan.Alone r b)
    (done : plan.placeBase b location duration = .ok next) : ChangesAt r plan next := by
  obtain ⟨_, rfl⟩ := placeBase_eq_ok.mp done
  refine ⟨changesOnly_of_keeps rfl rfl, fun i stops c apart visits member => ?_⟩
  refine BasePool.base_modifyEntry_of_ne ?_ _
  rintro rfl
  exact alone i stops apart visits member

omit [Quantity α] in
theorem ChangesAt.setRoute (plan : Plan α) (r : Nat) (new : Route) :
    ChangesAt r plan (plan.setRoute r new) :=
  ChangesOnly.changesAt (changesOnly_of_set ⟨new, rfl⟩ rfl) fun _ => by rw [pool_setRoute]

omit [Quantity α] in
/-- Handing back stops leaves all other bases as they are. -/
theorem base_handBack {stop : Stop} (apart : stop ≠ .base b)
    (done : plan.handBack stop = .ok next) : next.pool.base b = plan.pool.base b := by
  cases stop with
  | destination job =>
      cases done
      rfl
  | base c =>
      simp only [Plan.handBack, bind_eq_ok] at done
      rcases done with ⟨⟨wasOut, pool⟩, released, equal⟩
      cases equal
      rw [BasePool.release] at released
      split_ifs at released
      · cases released
        rfl
      · cases released
        exact BasePool.base_modifyEntry_of_ne (fun same => apart (congrArg Stop.base same)) _

omit [Quantity α] in
theorem base_handBackAll {stops : List Stop} (absent : .base b ∉ stops)
    (done : stops.foldlM Plan.handBack plan = .ok next) :
    next.pool.base b = plan.pool.base b := by
  refine foldlM_keeps (fun q : Plan α => q.pool.base b = plan.pool.base b)
    (fun stop member before after same handed => ?_) rfl done
  refine (base_handBack ?_ handed).trans same
  rintro rfl
  exact absent member

omit [Quantity α] in
theorem ChangesAt.handBackAll {stops : List Stop} (alone : ∀ b, .base b ∈ stops → plan.Alone r b)
    (done : stops.foldlM Plan.handBack plan = .ok next) : ChangesAt r plan next := by
  obtain ⟨routes, ledger⟩ := handBackAll_keeps done
  refine ⟨changesOnly_of_keeps routes ledger, fun i others b apart visits member => ?_⟩
  exact base_handBackAll (fun among => alone b among i others apart visits member) done

theorem ChangesAt.refreshRoute {p : Problem α} (done : plan.refreshRoute p r = .ok next) :
    ChangesAt r plan next :=
  (changesOnly_refreshRoute done).changesAt fun _ => by rw [(refreshRoute_keeps done).2.1]

omit [Quantity α] in
/-- What a plan conserves a route shares with no other route. -/
theorem Holding.alone {jobs bases : Nat} {held : List Stop} {stops : List Stop}
    (holds : Holding jobs bases held plan) (visits : plan.Visits r stops)
    (member : .base b ∈ stops) : plan.Alone r b :=
  fun i others apart => (holds.once_of_visits visits member).2 i others apart

omit [Quantity α] in
/-- A stop that is put into a route stands where it was put. -/
theorem Visits.insertStop {before after : List Stop} {stop : Stop}
    (visits : plan.Visits r (before ++ after))
    (done : plan.insertStop r before.length stop = .ok next) :
    next.Visits r (before ++ stop :: after) := by
  rcases visits with ⟨vehicle, found⟩
  obtain ⟨_, _, foundAgain, changed, _⟩ := insertStop_itineraries done
  rw [found] at foundAgain
  cases foundAgain
  refine ⟨vehicle, ?_⟩
  rw [changed, List.getElem?_set_self (List.getElem?_eq_some_iff.mp found).1, insertIdx_between]

omit [Quantity α] in
/-- A free base may be put anywhere in a route. -/
theorem insertStop_base_answers {before after : List Stop}
    (visits : plan.Visits r (before ++ after)) (free : plan.pool.isFree b = true) :
    ∃ next, plan.insertStop r before.length (.base b) = .ok next := by
  rcases visits with ⟨vehicle, found⟩
  obtain ⟨route, here, _, stops⟩ := itineraries_eq_some.mp found
  exact ⟨_, insertStop_base.mpr ⟨route, here, by simp [stops], free, rfl⟩⟩

end

omit [Quantity α] in
/-- A refresh of the pool changes no route, and leaves bases that are in one where they lie. -/
theorem refreshBases_keeps {plan next : Plan α} (done : plan.refreshBases = .ok next) :
    next.itineraries = plan.itineraries ∧ next.ledger = plan.ledger ∧
      ∀ r stops b, plan.Visits r stops → .base b ∈ stops →
        next.pool.locationOf b = plan.pool.locationOf b := by
  simp only [Plan.refreshBases, bind_eq_ok] at done
  rcases done with ⟨pool, refreshed, equal⟩
  cases equal
  refine ⟨rfl, rfl, ?_⟩
  rintro r stops b ⟨vehicle, found⟩ member
  obtain ⟨route, here, _, rfl⟩ := itineraries_eq_some.mp found
  refine BasePool.locationOf_congr (BasePool.base_refresh refreshed ?_ member)
  exact List.mem_map.mpr ⟨route, List.mem_of_getElem? here, rfl⟩

/-! ### A base that closes a trip -/

/-- A free base was put behind some stops of a route, and then at a location. -/
structure Closes (jobs bases r b location : Nat) (front after : List Stop) (plan closed : Plan α) :
    Prop where
  changes : ChangesAt r plan closed
  conserved : Conserved jobs bases closed
  visits : closed.Visits r (front ++ .base b :: after)
  placed : closed.pool.locationOf b = some location
  kept : ∀ c, .base c ∈ front ++ after → closed.pool.locationOf c = plan.pool.locationOf c

omit [Quantity α] in
theorem closes_of_insertStop {jobs bases r b location : Nat} {duration : Duration}
    {front after : List Stop} {plan next closed : Plan α} (conserved : Conserved jobs bases plan)
    (visits : plan.Visits r (front ++ after))
    (inserted : plan.insertStop r front.length (.base b) = .ok next)
    (put : next.placeBase b location duration = .ok closed) :
    Closes jobs bases r b location front after plan closed := by
  have visitsNow := visits.insertStop inserted
  have conservedNow := Holding.insertStop conserved inserted
  have behind : .base b ∈ front ++ .base b :: after := by simp
  have taken := Holding.taken_of_visits conservedNow visitsNow behind
  have changes : ChangesAt r plan closed := (ChangesAt.insertStop inserted).trans
    (.placeBase (Holding.alone conservedNow visitsNow behind) put)
  refine ⟨changes, Holding.placeBase conservedNow taken put, ?_, ?_, fun c member => ?_⟩
  all_goals obtain ⟨inside, rfl⟩ := placeBase_eq_ok.mp put
  · exact visitsNow
  · exact BasePool.locationOf_placed_self inside
  · obtain ⟨_, _, _, free, rfl⟩ := insertStop_base.mp inserted
    have apart : b ≠ c := by
      rintro rfl
      rw [Holding.taken_of_visits conserved visits member] at free
      cases free
    exact BasePool.locationOf_congr
      ((BasePool.base_modifyEntry_of_ne apart _).trans (BasePool.base_without _ _ _))

omit [Quantity α] in
/-- A base that was put into a route may be put at a location. -/
theorem placeBase_answers {r position b : Nat} {plan next : Plan α} (location : Nat)
    (duration : Duration) (inserted : plan.insertStop r position (.base b) = .ok next) :
    ∃ closed, next.placeBase b location duration = .ok closed := by
  obtain ⟨_, _, _, free, rfl⟩ := insertStop_base.mp inserted
  obtain ⟨e, found, _⟩ := BasePool.isFree_eq_true.mp free
  have inside : b < plan.pool.size := (List.getElem?_eq_some_iff.mp found).1
  exact ⟨_, placeBase_eq_ok.mpr ⟨by simpa using inside, rfl⟩⟩

/-! ### Stops put into a route -/

/-- A plan in which one route has other stops, among which are new ones.  Bases that were not free
are as they were. -/
structure Inserts (r : Nat) (route : Route) (stops : List Stop) (plan next : Plan α) : Prop
    extends ChangesOnly r plan next where
  found : next.routes[r]? = some { route with stops := stops }
  taken : ∀ c, plan.pool.isFree c = false → next.pool.isFree c = false
  bases : ∀ c, plan.pool.isFree c = false → next.pool.base c = plan.pool.base c

section

variable {r : Nat} {route : Route} {before after stops more : List Stop}
  {plan next closed : Plan α}

omit [Quantity α] in
theorem Inserts.trans (first : Inserts r route stops plan next)
    (second : Inserts r { route with stops := stops } more next closed) :
    Inserts r route more plan closed := by
  refine ⟨first.toChangesOnly.trans second.toChangesOnly, second.found, fun c out => ?_,
    fun c out => ?_⟩
  · exact second.taken c (first.taken c out)
  · exact (second.bases c (first.taken c out)).trans (first.bases c out)

omit [Quantity α] in
theorem inserts_destination {job : Nat} (found : plan.routes[r]? = some route)
    (split : route.stops = before ++ after)
    (done : plan.insertStop r before.length (.destination job) = .ok next) :
    Inserts r route (before ++ .destination job :: after) plan next := by
  obtain ⟨same, foundAgain, _, _, rfl⟩ := insertStop_destination.mp done
  cases found.symm.trans foundAgain
  refine ⟨changesOnly_of_set ⟨_, rfl⟩ rfl, ?_, fun c out => out, fun c out => rfl⟩
  rw [← insertIdx_between, ← split]
  exact routes_setRoute_self found

omit [Quantity α] in
/-- A base that was free is put into a route, and at a location. -/
theorem inserts_base {b location : Nat} {duration : Duration}
    (found : plan.routes[r]? = some route) (split : route.stops = before ++ after)
    (done : plan.insertStop r before.length (.base b) = .ok next)
    (put : next.placeBase b location duration = .ok closed) :
    Inserts r route (before ++ .base b :: after) plan closed ∧
      ∃ lies : Base, closed.pool.base b = .ok (lies.place location duration) := by
  obtain ⟨same, foundAgain, _, free, rfl⟩ := insertStop_base.mp done
  cases found.symm.trans foundAgain
  obtain ⟨inside, rfl⟩ := placeBase_eq_ok.mp put
  refine ⟨⟨changesOnly_of_set ⟨_, rfl⟩ rfl, ?_, fun c out => ?_, fun c out => ?_⟩,
    BasePool.base_placed_self inside⟩
  · rw [← insertIdx_between, ← split]
    exact routes_setRoute_self found
  · simp only [BasePool.isFree_placed, BasePool.isFree_without, out, ite_self]
  · have apart : b ≠ c := by
      rintro rfl
      rw [free] at out
      cases out
    exact (BasePool.base_modifyEntry_of_ne apart _).trans (BasePool.base_without _ _ _)

end

/-! ### The ledger elsewhere -/

/-- The ledger agrees with a route as long as the route, its entry and its bases stay as they
are. -/
theorem Agrees.congr {p : Problem α} {plan next : Plan α} {r : Nat} (agrees : plan.Agrees p r)
    (itinerary : next.itineraries[r]? = plan.itineraries[r]?)
    (entry : next.ledger.entry r = plan.ledger.entry r)
    (locations : ∀ stops b, plan.Visits r stops → .base b ∈ stops →
      next.pool.locationOf b = plan.pool.locationOf b) : next.Agrees p r := by
  rintro stops ⟨vehicle, found⟩
  rw [itinerary] at found
  have before := agrees stops ⟨vehicle, found⟩
  rw [entry]
  refine ⟨?_, before.count_eq, before.load_at⟩
  rw [before.trips_eq, tripEntries, tripEntries]
  congr 1
  apply List.map_congr_left
  intro t member
  rw [locations stops t.base ⟨vehicle, found⟩ (stops_of_mem_closedTrips member).1]

/-- A change of one route leaves the ledger in agreement with the others. -/
theorem Agrees.elsewhere {p : Problem α} {plan next : Plan α} {r i : Nat}
    (agrees : plan.Agrees p i) (changes : ChangesAt r plan next) (apart : r ≠ i) :
    next.Agrees p i :=
  agrees.congr (changes.others apart) (changes.entries i apart) fun stops b visits member =>
    changes.locations i stops b apart visits member

/-- If the ledger agrees with the changed route, it agrees with all routes again. -/
theorem agrees_of_changesAt {p : Problem α} {plan next : Plan α} {r : Nat}
    (agrees : ∀ i, plan.Agrees p i) (changes : ChangesAt r plan next) (own : next.Agrees p r)
    (i : Nat) : next.Agrees p i := by
  by_cases same : r = i
  · exact same ▸ own
  · exact (agrees i).elsewhere changes same

/-- Once the changed route is refreshed, the ledger agrees with all routes again. -/
theorem agrees_refreshRoute {p : Problem α} {plan next fresh : Plan α} {r : Nat}
    (agrees : ∀ i, plan.Agrees p i) (changes : ChangesAt r plan next)
    (done : next.refreshRoute p r = .ok fresh) : ∀ i, fresh.Agrees p i :=
  agrees_of_changesAt agrees (changes.trans (.refreshRoute done)) (refreshRoute_agrees done).1

end Plan

end Haulage

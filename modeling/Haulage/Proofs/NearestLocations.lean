/-
Module: Haulage.Proofs.NearestLocations
Purpose: What is offered for a base where the nearest locations are asked for.  The neighbours of the
  stop before the base come in any order in which none stands before a closer one.
Main exports: LocationProvider.NeighbourOrder.Ascends, Selects, LocationQuery.Suits,
  LocationQuery.countAt_eq_trips, LocationProvider.nearestBy_offers
-/
import Haulage.Proofs.Session
import Haulage.Unload.Locations

namespace Haulage

/-! ### Selecting the first of some entries -/

/-- The first `k` of the entries that are admitted, in an order in which none stands before one that
should precede it.  The entries that are left out follow all that are selected. -/
structure Selects {β : Type} (admitted : β → Bool) (precedes : β → β → Prop) (k : Nat)
    (listed selected : List β) : Prop where
  count : selected.length = min k (listed.countP admitted)
  ordered : selected.Pairwise precedes
  first : ∃ left, (selected ++ left).Perm (listed.filter admitted) ∧
    ∀ x ∈ selected, ∀ y ∈ left, precedes x y

namespace Selects

variable {β : Type} {admitted : β → Bool} {precedes : β → β → Prop} {k : Nat}
  {listed selected : List β}

/-- Whoever is selected is one of the entries, and is admitted. -/
theorem mem (selects : Selects admitted precedes k listed selected) {x : β} (member : x ∈ selected) :
    x ∈ listed ∧ admitted x = true := by
  obtain ⟨left, perm, _⟩ := selects.first
  exact List.mem_filter.mp (perm.mem_iff.mp (List.mem_append_left left member))

/-- To be admitted comes before the cut: those that are not admitted take up no place. -/
theorem of_ordered {inOrder : List β} (perm : inOrder.Perm listed)
    (ordered : inOrder.Pairwise precedes) (k : Nat) :
    Selects admitted precedes k listed ((inOrder.filter admitted).take k) := by
  have admittedInOrder := ordered.filter admitted
  have selected := perm.filter admitted
  rw [← List.take_append_drop k (inOrder.filter admitted)] at admittedInOrder selected
  obtain ⟨within, _, across⟩ := List.pairwise_append.mp admittedInOrder
  refine ⟨?_, within, _, selected, across⟩
  rw [List.length_take, ← List.countP_eq_length_filter, perm.countP_eq]

/-- Nobody is selected where no place is left, or nobody is admitted. -/
theorem eq_nil_iff (selects : Selects admitted precedes k listed selected) :
    selected = [] ↔ k = 0 ∨ ∀ x ∈ listed, admitted x = false := by
  rw [← List.length_eq_zero_iff, selects.count, Nat.min_eq_zero_iff, List.countP_eq_zero]
  simp only [Bool.not_eq_true]

end Selects

/-! ### Trips counted at locations -/

/-- The count of a location in a list of counts. -/
def countOf (counts : List LocationCount) (location : Nat) : Nat :=
  ((counts.find? (·.location = location)).map (·.count)).getD 0

theorem countOf_countTrip (counts : List LocationCount) (location other : Nat) :
    countOf (countTrip location counts) other =
      countOf counts other + if location = other then 1 else 0 := by
  induction counts with
  | nil => by_cases same : location = other <;> simp [countTrip, countOf, same]
  | cons c rest inductionHypothesis =>
      simp only [countOf] at inductionHypothesis
      by_cases here : c.location = location
      · by_cases same : location = other <;> simp [countTrip, countOf, here, same]
      · by_cases there : c.location = other
        · have apart : location ≠ other := fun equal => here (there.trans equal.symm)
          rw [countTrip, if_neg here, if_neg apart]
          simp [countOf, there]
        · simp [countTrip, countOf, here, there, inductionHypothesis]

theorem countOf_foldl_countTrip (locations : List Nat) (counts : List LocationCount)
    (location : Nat) :
    countOf (locations.foldl (fun counts location => countTrip location counts) counts) location =
      countOf counts location + locations.count location := by
  induction locations generalizing counts with
  | nil => simp
  | cons first rest inductionHypothesis =>
      rw [List.foldl_cons, inductionHypothesis, countOf_countTrip, List.count_cons, Nat.add_assoc]
      simp only [beq_iff_eq, Nat.add_comm]

/-- The counts that a route hands over tell how many of its trips unload at each location. -/
theorem LocationQuery.countAt_eq_trips {α : Type} {q : LocationQuery α} {ledger : Ledger α}
    {route : Nat} (counted : q.counts = locationCounts ledger route) (location : Nat) :
    q.countAt location = (List.range (ledger.tripCount route)).countP fun trip =>
      ledger.unloadLocation? route trip = some location := by
  have counts : q.countAt location = countOf (locationCounts ledger route) location := by
    rw [← counted]
    rfl
  rw [counts, locationCounts, countOf_foldl_countTrip, List.count, List.countP_filterMap]
  refine (Nat.zero_add _).trans (List.countP_congr fun trip _ => ?_)
  cases ledger.unloadLocation? route trip with
  | none => simp
  | some place => simp

/-! ### Neighbours -/

variable {α : Type} [Quantity α]

/-- One location of a problem lies no farther from a given one than another does. -/
def Problem.NoFarther (p : Problem α) (origin near far : Nat) : Prop :=
  ∃ o x y, p.points[origin]? = some o ∧ p.points[near]? = some x ∧ p.points[far]? = some y ∧
    LocationProvider.squaredDistance o x ≤ LocationProvider.squaredDistance o y

namespace LocationQuery

omit [Quantity α]

/-- Fewer trips of the route unload at a location than may.  Without a limit any number may. -/
def HasTripLeft (q : LocationQuery α) (limit : Option Nat) (location : Nat) : Prop :=
  ∀ most ∈ limit, q.countAt location < most

theorem isSaturated_eq_false {q : LocationQuery α} {limit : Option Nat} {location : Nat} :
    q.isSaturated limit location = false ↔ q.HasTripLeft limit location := by
  cases limit with
  | none => simp [isSaturated, HasTripLeft]
  | some most => simp [isSaturated, HasTripLeft]

instance (q : LocationQuery α) (limit : Option Nat) (location : Nat) :
    Decidable (q.HasTripLeft limit location) := decidable_of_iff _ isSaturated_eq_false

theorem not_isSaturated (q : LocationQuery α) (limit : Option Nat) (location : Nat) :
    (!q.isSaturated limit location) = decide (q.HasTripLeft limit location) := by
  rw [Bool.eq_iff_iff, Bool.not_eq_true', isSaturated_eq_false, decide_eq_true_iff]

end LocationQuery

/-- What is right to offer for a base: some of the locations, and none only if there is none; where it
is known where the vehicle comes from and some location has a trip left, the closest `k` of those
with a trip left, else all of them. -/
structure LocationQuery.Suits (q : LocationQuery α) (p : Problem α) (locations : List Nat) (k : Nat)
    (limit : Option Nat) (offered : List Nat) : Prop where
  listed : offered ⊆ locations
  nonempty : locations ≠ [] → offered ≠ []
  closest : ∀ previous, q.previous = some previous → 0 < k →
    (∃ l ∈ locations, q.HasTripLeft limit l) → (∀ l ∈ offered, q.HasTripLeft limit l) ∧
      Selects (fun l => decide (q.HasTripLeft limit l)) (p.NoFarther previous) k locations offered
  whole : (q.previous = none ∨ k = 0 ∨ ∀ l ∈ locations, ¬ q.HasTripLeft limit l) →
    offered = locations

namespace LocationProvider

/-- What an order of neighbours is relied on for, among some points: it lists each entry once, and
none before a closer one. -/
structure NeighbourOrder.Ascends (neighbours : NeighbourOrder α) (points : Array (Point α)) :
    Prop where
  perm : ∀ origin ∈ points, ∀ placed, (∀ entry ∈ placed, entry.2 ∈ points) →
    (neighbours origin placed).Perm placed
  ordered : ∀ origin ∈ points, ∀ placed, (∀ entry ∈ placed, entry.2 ∈ points) →
    (neighbours origin placed).Pairwise fun a b =>
      squaredDistance origin a.2 ≤ squaredDistance origin b.2

/-- Sorting by the distance gives such an order. -/
theorem byDistance_ascends (points : Array (Point Rat)) :
    NeighbourOrder.Ascends (byDistance : NeighbourOrder Rat) points := by
  refine ⟨fun origin _ placed _ => List.mergeSort_perm placed _, fun origin _ placed _ => ?_⟩
  let closer (a b : Nat × Point Rat) : Bool :=
    decide (squaredDistance origin a.2 ≤ squaredDistance origin b.2)
  have transitive (a b c : Nat × Point Rat) (first : closer a b = true)
      (second : closer b c = true) : closer a c = true :=
    decide_eq_true (le_trans (of_decide_eq_true first) (of_decide_eq_true second))
  have total (a b : Nat × Point Rat) : (closer a b || closer b a) = true := by
    simpa [closer] using le_total (squaredDistance origin a.2) (squaredDistance origin b.2)
  exact (List.pairwise_mergeSort transitive total placed).imp of_decide_eq_true

variable {p : Problem α} {neighbours : NeighbourOrder α} {locations : List Nat} {k : Nat}
  {limit : Option Nat} {placed : List (Nat × Point α)}

omit [Quantity α] in
/-- The list of locations is placed entry by entry. -/
theorem placed_eq_ok
    (located : (locations.mapM fun l => do .ok (l, ← orOutOfTable p.points[l]?)) = .ok placed) :
    placed.map (·.1) = locations ∧ ∀ entry ∈ placed, p.points[entry.1]? = some entry.2 := by
  have placing (l : Nat) (entry : Nat × Point α)
      (done : (do .ok (l, ← orOutOfTable p.points[l]?) : Except Failure _) = .ok entry) :
      entry.1 = l ∧ p.points[l]? = some entry.2 := by
    simp only [bind_eq_ok, orOutOfTable_eq_ok] at done
    rcases done with ⟨point, there, equal⟩
    cases equal
    exact ⟨rfl, there⟩
  refine ⟨map_of_mapM_eq_ok (fun l entry done => (placing l entry done).1) located, ?_⟩
  intro entry member
  obtain ⟨l, _, done⟩ := mem_of_mapM_eq_ok located member
  obtain ⟨rfl, there⟩ := placing l entry done
  exact there

/-- The neighbours of a location are all locations of the list, the closer ones first. -/
theorem neighbours_ordered (ascends : neighbours.Ascends p.points)
    (located : (locations.mapM fun l => do .ok (l, ← orOutOfTable p.points[l]?)) = .ok placed)
    {previous : Nat} {origin : Point α} (comes : p.points[previous]? = some origin) :
    ((neighbours origin placed).map (·.1)).Perm locations ∧
      ((neighbours origin placed).map (·.1)).Pairwise (p.NoFarther previous) := by
  obtain ⟨names, there⟩ := placed_eq_ok located
  have known : ∀ entry ∈ placed, entry.2 ∈ p.points := fun entry member =>
    Array.mem_of_getElem? (there entry member)
  have perm := ascends.perm origin (Array.mem_of_getElem? comes) placed known
  have ordered := ascends.ordered origin (Array.mem_of_getElem? comes) placed known
  refine ⟨names ▸ perm.map _, List.pairwise_map.mpr (ordered.imp_of_mem ?_)⟩
  intro near far first second closer
  exact ⟨origin, near.2, far.2, comes, there near (perm.mem_iff.mp first),
    there far (perm.mem_iff.mp second), closer⟩

/-- The whole list suits where there is nothing to choose by, or nothing to choose from. -/
theorem suits_whole {q : LocationQuery α}
    (open_ : q.previous = none ∨ k = 0 ∨ ∀ l ∈ locations, ¬ q.HasTripLeft limit l) :
    q.Suits p locations k limit locations := by
  refine ⟨List.Subset.refl _, id, fun previous comes positive ⟨l, member, left⟩ => ?_, fun _ => rfl⟩
  rcases open_ with nowhere | zero | saturated
  · cases comes.symm.trans nowhere
  · exact absurd zero (Nat.ne_of_gt positive)
  · exact absurd left (saturated l member)

/-- Of the neighbours of the stop before the base the first with a trip left suit, if there are any. -/
theorem suits_of_neighbours {q : LocationQuery α} {previous : Nat} {nearby : List Nat}
    (comes : q.previous = some previous) (perm : nearby.Perm locations)
    (ordered : nearby.Pairwise (p.NoFarther previous)) :
    q.Suits p locations k limit
      (let offered := (nearby.filter fun l => !q.isSaturated limit l).take k
      if offered.isEmpty then locations else offered) := by
  simp only [LocationQuery.not_isSaturated]
  have selects : Selects (fun l => decide (q.HasTripLeft limit l)) (p.NoFarther previous) k
      locations ((nearby.filter fun l => decide (q.HasTripLeft limit l)).take k) :=
    .of_ordered perm ordered k
  have none_iff := selects.eq_nil_iff
  simp only [decide_eq_false_iff_not] at none_iff
  generalize (nearby.filter fun l => decide (q.HasTripLeft limit l)).take k = offered
    at selects none_iff ⊢
  by_cases empty : offered = []
  · rw [if_pos (List.isEmpty_iff.mpr empty)]
    exact suits_whole (.inr (none_iff.mp empty))
  · rw [if_neg (mt List.isEmpty_iff.mp empty)]
    refine ⟨fun l member => (selects.mem member).1, fun _ => empty, ?_, ?_⟩
    · intro other equal _ _
      cases comes.symm.trans equal
      exact ⟨fun l member => of_decide_eq_true (selects.mem member).2, selects⟩
    · rintro (nowhere | nothing)
      · cases comes.symm.trans nowhere
      · exact absurd (none_iff.mpr nothing) empty

omit [Quantity α] in
/-- The provider can be made for locations of the problem, and for no others. -/
theorem exists_nearestBy_iff :
    (∃ provider, nearestBy neighbours p locations k limit = .ok provider) ↔
      ∀ l ∈ locations, l < p.points.size := by
  constructor
  · rintro ⟨provider, made⟩ l member
    simp only [nearestBy, bind_eq_ok] at made
    rcases made with ⟨placed, located, _⟩
    obtain ⟨names, there⟩ := placed_eq_ok located
    obtain ⟨entry, among, rfl⟩ := List.mem_map.mp (names ▸ member)
    exact (Array.getElem?_eq_some_iff.mp (there entry among)).1
  · intro inside
    obtain ⟨placed, located⟩ :=
      mapM_answers (f := fun l => (do .ok (l, ← orOutOfTable p.points[l]?) : Except Failure _))
        fun l member => ⟨_, bind_eq_ok.mpr ⟨_, orOutOfTable_getElem (inside l member), rfl⟩⟩
    exact ⟨_, bind_eq_ok.mpr ⟨placed, located, rfl⟩⟩

section

variable {provider : LocationProvider α}
  (made : nearestBy neighbours p locations k limit = .ok provider) {q : LocationQuery α}
include made

omit [Quantity α] in
theorem locations_of_nearestBy : provider.locations = locations := by
  simp only [nearestBy, bind_eq_ok, Except.ok.injEq] at made
  rcases made with ⟨_, _, rfl⟩
  rfl

omit [Quantity α] in
/-- Every question is answered in which the stop before the base lies somewhere. -/
theorem exists_offers_iff :
    (∃ offered, provider.offers q = .ok offered) ↔
      ∀ previous, q.previous = some previous → previous < p.points.size := by
  simp only [nearestBy, bind_eq_ok, Except.ok.injEq] at made
  rcases made with ⟨placed, _, rfl⟩
  dsimp only
  cases comes : q.previous with
  | none => simp
  | some previous =>
      simp only [bind_eq_ok, orOutOfTable_eq_ok, Option.some.injEq, forall_eq']
      constructor
      · rintro ⟨_, origin, there, _⟩
        exact (Array.getElem?_eq_some_iff.mp there).1
      · intro inside
        exact ⟨_, _, Array.getElem?_eq_getElem inside, rfl⟩

theorem suits_of_offers (ascends : neighbours.Ascends p.points) {offered : List Nat}
    (answer : provider.offers q = .ok offered) : q.Suits p locations k limit offered := by
  simp only [nearestBy, bind_eq_ok, Except.ok.injEq] at made
  rcases made with ⟨placed, located, rfl⟩
  dsimp only at answer
  cases comes : q.previous with
  | none =>
      rw [comes] at answer
      cases answer
      exact suits_whole (.inl comes)
  | some previous =>
      simp only [comes, bind_eq_ok, orOutOfTable_eq_ok] at answer
      rcases answer with ⟨origin, there, equal⟩
      cases equal
      obtain ⟨perm, ordered⟩ := neighbours_ordered ascends located there
      exact suits_of_neighbours comes perm ordered

end

/-- The provider of the nearest locations can be made for locations of the problem only, and answers
unless the stop before the base lies nowhere; what it then offers suits the question.  A question
about a route of a plan brings the number of trips that unload at each location. -/
theorem nearestBy_offers (ascends : neighbours.Ascends p.points) (locations : List Nat) (k : Nat)
    (limit : Option Nat) :
    ((∃ provider, nearestBy neighbours p locations k limit = .ok provider) ↔
      ∀ l ∈ locations, l < p.points.size) ∧
    ∀ provider, nearestBy neighbours p locations k limit = .ok provider →
      provider.locations = locations ∧
      ∀ q : LocationQuery α,
        ((∃ offered, provider.offers q = .ok offered) ↔
          ∀ previous, q.previous = some previous → previous < p.points.size) ∧
        (∀ offered, provider.offers q = .ok offered → q.Suits p locations k limit offered) ∧
        ∀ (ledger : Ledger α) (route : Nat), q.counts = locationCounts ledger route →
          ∀ l, q.countAt l = (List.range (ledger.tripCount route)).countP fun trip =>
            ledger.unloadLocation? route trip = some l := by
  refine ⟨exists_nearestBy_iff, fun provider made => ⟨locations_of_nearestBy made, fun q => ?_⟩⟩
  exact ⟨exists_offers_iff made, fun _ answer => suits_of_offers made ascends answer,
    fun _ _ counted => q.countAt_eq_trips counted⟩

/-- All four locations along a line are listed, and a trip comes from the last of them, where as many
trips unload as may.  The two locations next to it are offered. -/
theorem nearestBy_offers_alongLine :
    let q : LocationQuery Rat := ⟨default, true, 1, 0, [⟨3, 1⟩], some 3, none⟩
    NeighbourOrder.Ascends byDistance twoJobs.points ∧
    ∃ provider, nearestBy byDistance twoJobs [3, 2, 1, 0] 2 (some 1) = .ok provider ∧
      provider.offers q = .ok [2, 1] ∧ q.Suits twoJobs [3, 2, 1, 0] 2 (some 1) [2, 1] ∧
      Selects (fun l => decide (q.HasTripLeft (some 1) l)) (twoJobs.NoFarther 3) 2 [3, 2, 1, 0]
        [2, 1] := by
  intro q
  have ascends := byDistance_ascends twoJobs.points
  have neighbours : byDistance (⟨3, 0⟩ : Point Rat)
      [(3, ⟨3, 0⟩), (2, ⟨2, 0⟩), (1, ⟨1, 0⟩), (0, ⟨0, 0⟩)] =
      [(3, ⟨3, 0⟩), (2, ⟨2, 0⟩), (1, ⟨1, 0⟩), (0, ⟨0, 0⟩)] :=
    List.mergeSort_of_pairwise (by decide +kernel)
  have run : (nearestBy byDistance twoJobs [3, 2, 1, 0] 2 (some 1) >>= fun provider =>
      provider.offers q) = .ok [2, 1] :=
    congrArg (fun nearby : List (Nat × Point Rat) =>
      let offered := ((nearby.map Prod.fst).filter fun l => !q.isSaturated (some 1) l).take 2
      (.ok (if offered.isEmpty then [3, 2, 1, 0] else offered) : Except Failure _)) neighbours
  obtain ⟨provider, made, answer⟩ := bind_eq_ok.mp run
  obtain ⟨_, questions⟩ := (nearestBy_offers ascends [3, 2, 1, 0] 2 (some 1)).2 provider made
  have suits := (questions q).2.1 [2, 1] answer
  exact ⟨ascends, provider, made, answer, suits,
    (suits.closest 3 rfl (by decide) ⟨0, by decide, by decide⟩).2⟩

end LocationProvider

end Haulage

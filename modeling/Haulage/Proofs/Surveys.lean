/-
Module: Haulage.Proofs.Surveys
Purpose: Evaluations that ask for nothing unknown.  Where stops, locations and volumes are known, a
  route can be walked along, every rule has a verdict and every insertion a cost, or else the failure
  is excused.
Main exports: LocationQuery.InRange, Walk.yields_scan, Trial.InRange, Trial.yields_verdict,
  Survey.OffersOnly, Survey.Guided, Survey.Knows, Survey.Knows.yields_scanTrips,
  Survey.Knows.yields_openTrip
-/
import Haulage.Insertion.Base
import Haulage.Proofs.Finds
import Haulage.Proofs.Lapses

namespace Haulage

variable {α : Type} [Quantity α]

open Problem

/-! ### Locations for bases -/

/-- A question for a location that refers to nothing beyond the problem. -/
structure LocationQuery.InRange (p : Problem α) (q : LocationQuery α) : Prop where
  vehicle : q.vehicle ∈ p.vehicles
  previous : p.HasPlace q.previous
  next : p.HasPlace q.next

variable {p : Problem α} {volumes : Volumes α} {location : Nat}

/-- Where the volume is tracked, it is known what may be added to it. -/
theorem Problem.yields_isLoadable (p : Problem α)
    (tracked : (volumes.tracked? location).isSome = true) (load : Load α) :
    p.Yields (fun _ => True) (volumes.isLoadable location load) := by
  obtain ⟨e, found⟩ := Option.isSome_iff_exists.mp tracked
  have known : p.Yields (fun _ => True) (volumes.entry location) :=
    .of_answer (by rw [Volumes.entry, found]) trivial
  apply known.bind
  intro e _ _
  cases e.capacity with
  | none => exact .ok trivial
  | some capacity => exact .ok trivial

/-- Where only places of the problem are offered whose volumes are tracked, one of them is chosen. -/
theorem yields_cheapestLoadable {P : Nat → Prop} {provider : LocationProvider α}
    {query : LocationQuery α} (linked : p.Linked) (inside : ∀ place, P place → place < p.points.size)
    (tracked : ∀ place, P place → (volumes.tracked? place).isSome = true)
    (offers : p.Yields (fun offered => ∀ place ∈ offered, P place) (provider.offers query))
    (inRange : query.InRange p) (load : Load α) :
    p.Yields (fun chosen => ∀ place, chosen = some place → P place)
      (cheapestLoadable p provider volumes query load) := by
  refine ⟨fun chosen choice place equal => ?_, ?_⟩
  · subst equal
    obtain ⟨offered, answer, among, _⟩ := cheapestLoadable_eq_some choice
    exact offers.answers offered answer place among
  · refine Yields.fails (Q := fun _ => True) ?_
    apply offers.bind
    intro offered answer places
    clear answer
    suffices along : ∀ best, p.Yields (fun _ => True)
        (cheapestAmong p volumes query load best offered) from
      (along none).bind fun _ _ _ => .ok trivial
    induction offered with
    | nil => exact fun best => .ok trivial
    | cons place rest inductionHypothesis =>
        intro best
        have here := places place List.mem_cons_self
        have later := inductionHypothesis fun l member => places l (List.mem_cons_of_mem _ member)
        have there := hasPlace_some (inside place here)
        apply (p.yields_isLoadable (tracked place here) load).bind
        intro loadable _ _
        split
        · apply (yields_travelCost linked inRange.vehicle inRange.previous there).bind
          intro access _ _
          apply (yields_travelCost linked inRange.vehicle there inRange.next).bind
          intro egress _ _
          exact later _
        · exact later _

/-! ### Gaps -/

/-- A gap between places that the problem has. -/
structure Gap.InRange (p : Problem α) (gap : Gap) : Prop where
  previous : p.HasPlace gap.previousLocation
  next : p.HasPlace gap.nextLocation

namespace Walk

variable {pool : BasePool} {v : Vehicle α} {stops : List Stop}

theorem yields_pass (linked : p.Linked) (known : v ∈ p.vehicles) {w : Walk} {stop : Stop}
    (here : p.HasStop pool stop) (lies : p.HasPlace w.place) :
    p.Yields (fun passed => passed.1.InRange p ∧ p.HasPlace passed.2.place)
      (w.pass p pool v stop) := by
  apply (yields_stopLocation linked here).bind
  intro at? _ there
  have arrives := there.orElse lies
  apply (yields_arrival linked known lies arrives w.departure).bind
  intro arrival _ _
  apply (yields_endOfStop linked here arrival).bind
  intro leaving _ _
  exact .ok ⟨⟨lies, arrives⟩, arrives⟩

theorem yields_scan (linked : p.Linked) (known : v ∈ p.vehicles)
    (all : ∀ stop ∈ stops, p.HasStop pool stop) {σ : Type}
    {look : σ → Gap → Except Failure (ForInStep σ)}
    (looks : ∀ s gap, gap.InRange p → p.Yields (fun _ => True) (look s gap)) {w : Walk}
    (lies : p.HasPlace w.place) (s : σ) :
    p.Yields (fun _ => True) (scan p pool v look w s stops) := by
  induction stops generalizing w s with
  | nil =>
      apply (looks s _ ⟨lies, linked.endLocation known⟩).bind
      intro step _ _
      cases step with
      | done s => exact .ok trivial
      | yield s => exact .ok trivial
  | cons stop rest inductionHypothesis =>
      apply (yields_pass linked known (all stop List.mem_cons_self) lies).bind
      rintro ⟨gap, further⟩ _ ⟨between, arrives⟩
      apply (looks s gap between).bind
      intro step _ _
      cases step with
      | done s => exact .ok trivial
      | yield s =>
          exact inductionHypothesis (fun stop member => all stop (List.mem_cons_of_mem _ member))
            arrives s

theorem yields_tailGap (linked : p.Linked) (known : v ∈ p.vehicles)
    (all : ∀ stop ∈ stops, p.HasStop pool stop) {w : Walk} (lies : p.HasPlace w.place) :
    p.Yields (Gap.InRange p) (tailGap p pool v w stops) := by
  induction stops generalizing w with
  | nil => exact .ok ⟨lies, linked.endLocation known⟩
  | cons stop rest inductionHypothesis =>
      apply (yields_pass linked known (all stop List.mem_cons_self) lies).bind
      rintro ⟨gap, further⟩ _ ⟨_, arrives⟩
      exact inductionHypothesis (fun stop member => all stop (List.mem_cons_of_mem _ member)) arrives

end Walk

/-! ### Rules -/

/-- A stop that is about to be inserted at a place that the problem has, a base where the volume is
tracked. -/
def Problem.HasNewStop (p : Problem α) (volumes : Volumes α) : NewStop → Prop
  | .destination job => job < p.destinations.size
  | .base _ location _ => location < p.points.size ∧ (volumes.tracked? location).isSome = true

/-- A trial that refers to nothing beyond the problem, and to no volume that is not tracked. -/
structure Trial.InRange (p : Problem α) (volumes : Volumes α) (t : Trial α) : Prop where
  vehicle : t.vehicle ∈ p.vehicles
  stop : p.HasNewStop volumes t.newStop
  gap : t.gap.InRange p
  unloads : ∀ location, t.unloadLocation = some location →
    (volumes.tracked? location).isSome = true

section

variable {plan : Plan α} {t : Trial α} {s : NewStop} {route : Route}

omit [Quantity α] in
theorem yields_newLocation (linked : p.Linked) (known : p.HasNewStop volumes s) :
    p.Yields (· < p.points.size) (s.location p) := by
  cases s with
  | destination job => exact (yields_destination linked known).bind fun d _ inside => .ok inside
  | base b location duration => exact .ok known.1

omit [Quantity α] in
theorem yields_newEndOfService (linked : p.Linked) (known : p.HasNewStop volumes s)
    (arrival : Instant) : p.Yields (fun _ => True) (s.endOfService p arrival) := by
  cases s with
  | destination job => exact (yields_destination linked known).bind fun d _ _ => yields_after _ _
  | base b location duration => exact yields_after _ _

namespace Trial

omit [Quantity α] in
theorem yields_route {r : Nat} (found : plan.routes[r]? = some route) :
    p.Yields (fun _ => True) (plan.route r) :=
  .of_answer (Plan.route_eq_ok.mpr found) trivial

theorem yields_capacityVerdict (linked : p.Linked) (found : plan.routes[t.route]? = some route)
    (ranges : t.InRange p volumes) : p.Yields (fun _ => True) (t.capacityVerdict p plan) := by
  have known := ranges.stop
  unfold capacityVerdict
  cases stop : t.newStop with
  | base b location duration => exact .ok trivial
  | destination job =>
      rw [stop] at known
      dsimp only
      split_ifs
      · exact .ok trivial
      · apply (yields_route found).bind
        intro route _ _
        split_ifs
        · exact .ok trivial
        · apply (yields_destination linked known).bind
          intro d _ _
          split_ifs
          · exact .ok trivial
          · exact .ok trivial

theorem yields_volumeVerdict (linked : p.Linked) (ranges : t.InRange p volumes) :
    p.Yields (fun _ => True) (t.volumeVerdict p volumes) := by
  have known := ranges.stop
  unfold volumeVerdict
  cases stop : t.newStop with
  | base b location duration =>
      rw [stop] at known
      apply (p.yields_isLoadable known.2 t.load).bind
      intro loadable _ _
      split_ifs
      · exact .ok trivial
      · exact .ok trivial
  | destination job =>
      rw [stop] at known
      cases unloads : t.unloadLocation with
      | none => exact .ok trivial
      | some location =>
          apply (yields_destination linked known).bind
          intro d _ _
          apply (p.yields_isLoadable (ranges.unloads location unloads) d.demand).bind
          intro loadable _ _
          split_ifs
          · exact .ok trivial
          · exact .ok trivial

theorem yields_verdict (linked : p.Linked) (found : plan.routes[t.route]? = some route)
    (ranges : t.InRange p volumes) : p.Yields (fun _ => True) (t.verdict p plan volumes) := by
  apply (yields_capacityVerdict linked found ranges).bind
  intro capacity _ _
  cases capacity with
  | breakTrip => exact .ok trivial
  | fulfilled | continueScan =>
      apply (yields_volumeVerdict linked ranges).bind
      intro volume _ _
      cases volume with
      | breakTrip => exact .ok trivial
      | fulfilled => exact .ok trivial
      | continueScan => exact .ok trivial

theorem yields_arrival (linked : p.Linked) (ranges : t.InRange p volumes) :
    p.Yields (fun _ => True) (t.arrival p) := by
  apply (yields_newLocation linked ranges.stop).bind
  intro location _ inside
  exact Problem.yields_arrival linked ranges.vehicle ranges.gap.previous (hasPlace_some inside) _

theorem yields_leaving (linked : p.Linked) (ranges : t.InRange p volumes) :
    p.Yields (fun _ => True) (t.leaving p) := by
  apply (yields_arrival linked ranges).bind
  intro arrival _ _
  exact yields_newEndOfService linked ranges.stop arrival

theorem yields_delay (linked : p.Linked) (ranges : t.InRange p volumes) :
    p.Yields (fun _ => True) (t.delay p) := by
  apply (Problem.yields_arrival linked ranges.vehicle ranges.gap.previous ranges.gap.next _).bind
  intro current _ _
  apply (yields_newLocation linked ranges.stop).bind
  intro location _ inside
  apply (yields_leaving linked ranges).bind
  intro leaving _ _
  apply (Problem.yields_arrival linked ranges.vehicle (hasPlace_some inside) ranges.gap.next _).bind
  intro later _ _
  exact .ok trivial

theorem yields_missedSeconds (linked : p.Linked) (found : plan.routes[t.route]? = some route)
    (ranges : t.InRange p volumes) (d : Destination α) :
    p.Yields (fun _ => True) (t.missedSeconds p plan d) := by
  apply (yields_arrival linked ranges).bind
  intro arrival _ _
  have past : p.Yields (fun _ => True) (t.pastSlack? plan) := by
    apply (yields_route found).bind
    intro route _ _
    split_ifs
    · exact .ok trivial
    · exact .ok trivial
  apply past.bind
  intro slack _ _
  dsimp only
  split
  · apply (yields_delay linked ranges).bind
    intro delay _ _
    exact .ok trivial
  · exact .ok trivial

theorem yields_windowCost (linked : p.Linked) (found : plan.routes[t.route]? = some route)
    (ranges : t.InRange p volumes) (pricing : WindowPricing α) :
    p.Yields (fun _ => True) (t.windowCost p pricing plan) := by
  have known := ranges.stop
  unfold windowCost
  cases stop : t.newStop with
  | base b location duration => exact .ok trivial
  | destination job =>
      rw [stop] at known
      dsimp only
      split_ifs
      · exact .ok trivial
      · apply (yields_destination linked known).bind
        intro d _ _
        apply (yields_missedSeconds linked found ranges d).bind
        intro missed _ _
        exact .ok trivial

end Trial

end

/-! ### Surveys -/

theorem RouteTrial.yields_accessCost (linked : p.Linked) {v : Vehicle α} (known : v ∈ p.vehicles)
    {first last : Option Nat} (leaves : p.HasPlace first) (returns : p.HasPlace last) :
    p.Yields (fun _ => True) (accessCost p v first last) := by
  apply (yields_travelCost linked known (linked.depots v known) leaves).bind
  intro access _ _
  apply (yields_travelCost linked known returns (linked.endLocation known)).bind
  intro egress _ _
  exact .ok trivial

namespace Survey

/-- Only certain places are offered for bases.  Where a question makes sense, the answer does not
fail but in a way that is excused. -/
structure OffersOnly (P : Nat → Prop) (s : Survey α) : Prop where
  offers : ∀ query : LocationQuery α, query.InRange s.problem →
    s.problem.Yields (fun offered => ∀ place ∈ offered, P place) (s.provider.offers query)
  times : ∀ v ∈ s.problem.vehicles, ∀ place, P place → ∀ t,
    s.problem.Yields (fun _ => True) (s.serviceTimes v place t)

/-- A survey within a valid problem, which offers only places of the problem whose volumes are
tracked. -/
structure Guided (P : Nat → Prop) (s : Survey α) : Prop extends OffersOnly P s where
  linked : s.problem.Linked
  inside : ∀ place, P place → place < s.problem.points.size
  tracked : ∀ place, P place → (s.volumes.tracked? place).isSome = true

/-- A route with a vehicle and stops that are known, which unloads at certain places only. -/
structure Knows (P : Nat → Prop) (s : Survey α) (r : Nat) (route : Route) : Prop where
  found : s.plan.routes[r]? = some route
  drives : route.vehicle < s.problem.vehicles.size
  stops : ∀ stop ∈ route.stops, s.problem.HasStop s.plan.pool stop
  unloads : ∀ trip place, s.plan.ledger.unloadLocation? r trip = some place → P place

section

variable {s : Survey α} {P : Nat → Prop} {t : RouteTrial α} {route : Route} {d : Destination α}
  {job base : Nat} {gap : Gap}

theorem Guided.yields_cheapestLoadable (guided : s.Guided P) {query : LocationQuery α}
    (inRange : query.InRange s.problem) (load : Load α) :
    s.problem.Yields (fun chosen => ∀ place, chosen = some place → P place)
      (cheapestLoadable s.problem s.provider s.volumes query load) :=
  Haulage.yields_cheapestLoadable guided.linked guided.inside guided.tracked
    (guided.offers query inRange) inRange load

theorem Knows.yields_switchCost (knows : s.Knows P t.route route) (linked : s.problem.Linked)
    (drives : t.vehicle ∈ s.problem.vehicles) :
    s.problem.Yields (fun _ => True) (t.switchCost s.problem s.plan.pool route) := by
  unfold RouteTrial.switchCost
  split
  · rename_i firstStop lastStop head tail
    split_ifs
    · apply (yields_stopLocation linked (knows.stops firstStop (List.mem_of_head? head))).bind
      intro first _ leaves
      apply (yields_stopLocation linked (knows.stops lastStop (List.mem_of_getLast? tail))).bind
      intro last _ returns
      apply (RouteTrial.yields_accessCost linked drives leaves returns).bind
      intro new _ _
      apply (yields_vehicle knows.drives).bind
      intro v _ among
      apply (RouteTrial.yields_accessCost linked among leaves returns).bind
      intro old _ _
      exact .ok trivial
    · exact .ok trivial
  · exact .ok trivial

omit [Quantity α] in
/-- A job tried out in a gap between known places. -/
theorem Knows.trialAt (knows : s.Knows P t.route route) (guided : s.Guided P)
    (drives : t.vehicle ∈ s.problem.vehicles) (known : job < s.problem.destinations.size)
    (between : gap.InRange s.problem) : (s.trialAt t job gap).InRange s.problem s.volumes :=
  ⟨drives, known, between, fun location unloads =>
    guided.tracked location (knows.unloads gap.trip location unloads)⟩

theorem Knows.yields_lookAt (knows : s.Knows P t.route route) (guided : s.Guided P)
    (drives : t.vehicle ∈ s.problem.vehicles) (known : job < s.problem.destinations.size)
    (lies : d.location < s.problem.points.size) (routeCost : α) (bound : Bound α)
    (state : ScanState α) (gap : Gap) (between : gap.InRange s.problem) :
    s.problem.Yields (fun _ => True) (s.lookAt t job d routeCost bound state gap) := by
  have trial := knows.trialAt guided drives known between
  unfold lookAt
  split_ifs
  · exact .ok trivial
  · apply (Trial.yields_verdict guided.linked knows.found trial).bind
    intro verdict _ _
    cases verdict with
    | breakTrip => exact .ok trivial
    | continueScan => exact .ok trivial
    | fulfilled =>
        apply (Trial.yields_windowCost guided.linked knows.found trial _).bind
        intro windowCost _ _
        apply (yields_detourCost guided.linked drives between.previous lies between.next).bind
        intro detour _ _
        dsimp only
        split_ifs
        · exact .ok trivial
        · exact .ok trivial

theorem Knows.yields_scanTrips (knows : s.Knows P t.route route) (guided : s.Guided P)
    (drives : t.vehicle ∈ s.problem.vehicles) (known : job < s.problem.destinations.size)
    (lies : d.location < s.problem.points.size) (routeCost : α) (bound : Bound α) :
    s.problem.Yields (fun _ => True) (s.scanTrips t route job d routeCost bound) := by
  have scans := Walk.yields_scan guided.linked drives knows.stops
    (knows.yields_lookAt guided drives known lies routeCost bound)
    (w := .start t.vehicle t.departure) (guided.linked.depots _ drives) ⟨none, none⟩
  apply scans.bind
  intro state _ _
  exact .ok trivial

/-- At the end of a route the job and its base keep to places that the problem has. -/
theorem Knows.yields_openTrip (knows : s.Knows P t.route route) (guided : s.Guided P)
    (drives : t.vehicle ∈ s.problem.vehicles) (known : job < s.problem.destinations.size)
    (lies : d.location < s.problem.points.size) (routeCost : α) (bound : Bound α) :
    s.problem.Yields (fun _ => True) (s.openTrip t route job d base routeCost bound) := by
  have linked := guided.linked
  have tails := Walk.yields_tailGap linked drives knows.stops (w := .start t.vehicle t.departure)
    (linked.depots _ drives)
  apply tails.bind
  intro tail _ between
  apply (guided.yields_cheapestLoadable ⟨drives, hasPlace_some lies, between.next⟩ _).bind
  intro chosen _ places
  cases chosen with
  | none => exact .ok trivial
  | some location =>
      have place := places location rfl
      have there := guided.inside location place
      have tracked := guided.tracked location place
      have jobTrial : Trial.InRange s.problem s.volumes
          { route := t.route, vehicle := t.vehicle, newStop := .destination job,
            gap := { tail with next := .at (.base base), nextLocation := some location },
            load := s.plan.ledger.load t.route tail.trip, unloadLocation := some location } := by
        refine ⟨drives, known, ⟨between.previous, hasPlace_some there⟩, ?_⟩
        intro other equal
        cases equal
        exact tracked
      apply (Trial.yields_verdict linked knows.found jobTrial).bind
      intro jobVerdict _ _
      cases jobVerdict with
      | breakTrip => exact .ok trivial
      | continueScan => exact .ok trivial
      | fulfilled =>
          apply (Trial.yields_leaving linked jobTrial).bind
          intro leaving _ _
          apply (yields_arrival linked drives (hasPlace_some lies) (hasPlace_some there)
            leaving).bind
          intro arrival _ _
          apply (guided.times _ drives location place arrival).bind
          intro duration _ _
          have baseTrial : Trial.InRange s.problem s.volumes
              { route := t.route, vehicle := t.vehicle, newStop := .base base location duration,
                gap := { position := tail.position + 1, previous := .at (.destination job),
                         next := .finish, previousLocation := some d.location,
                         nextLocation := tail.nextLocation, previousDeparture := leaving,
                         trip := tail.trip },
                load := s.plan.ledger.load t.route tail.trip + d.demand,
                unloadLocation := some location } := by
            refine ⟨drives, ⟨there, tracked⟩, ⟨hasPlace_some lies, between.next⟩, ?_⟩
            intro other equal
            cases equal
            exact tracked
          apply (Trial.yields_verdict linked knows.found baseTrial).bind
          intro baseVerdict _ _
          cases baseVerdict with
          | breakTrip => exact .ok trivial
          | continueScan => exact .ok trivial
          | fulfilled =>
              apply (yields_detourCost linked drives between.previous there between.next).bind
              intro baseDetour _ _
              apply (yields_detourCost linked drives between.previous lies
                (hasPlace_some there)).bind
              intro jobDetour _ _
              apply (Trial.yields_windowCost linked knows.found jobTrial _).bind
              intro jobWindow _ _
              apply (Trial.yields_windowCost linked knows.found baseTrial _).bind
              intro baseWindow _ _
              dsimp only
              split_ifs
              · exact .ok trivial
              · exact .ok trivial

theorem Knows.yields_lookForBase (knows : s.Knows P t.route route) (guided : s.Guided P)
    (drives : t.vehicle ∈ s.problem.vehicles) (counts : List LocationCount)
    (place : Option Proposal) (gap : Gap) (between : gap.InRange s.problem) :
    s.problem.Yields (fun _ => True) (s.lookForBase t route base counts place gap) := by
  have linked := guided.linked
  have asks : LocationQuery.InRange s.problem
      { vehicle := t.vehicle, isLastTrip := decide (gap.next = .finish), trip := gap.trip,
        fillPercent := (s.loadBefore t.route gap).fillPercent (t.vehicle.tripCapacity gap.trip),
        counts := counts, previous := gap.previousLocation, next := gap.nextLocation } :=
    ⟨drives, between.previous, between.next⟩
  apply (guided.yields_cheapestLoadable asks _).bind
  intro chosen _ places
  cases chosen with
  | none => exact .ok trivial
  | some location =>
      have there := guided.inside location (places location rfl)
      have tracked := guided.tracked location (places location rfl)
      apply (yields_arrival linked drives between.previous (hasPlace_some there) _).bind
      intro arrival _ _
      apply (guided.times _ drives location (places location rfl) arrival).bind
      intro duration _ _
      have trial : Trial.InRange s.problem s.volumes
          { route := t.route, vehicle := t.vehicle, newStop := .base base location duration,
            gap := gap, load := s.loadBefore t.route gap, unloadLocation := some location } := by
        refine ⟨drives, ⟨there, tracked⟩, between, ?_⟩
        intro other equal
        cases equal
        exact tracked
      apply (Trial.yields_verdict linked knows.found trial).bind
      intro verdict _ _
      cases verdict with
      | fulfilled => exact .ok trivial
      | breakTrip => exact .ok trivial
      | continueScan => exact .ok trivial

/-- On a route that is known a place is sought for a base that is free. -/
theorem Knows.yields_firstPlace {r vehicle : Nat} (knows : s.Knows P r route) (guided : s.Guided P)
    (free : s.plan.pool.isFree base = true) (drives : vehicle < s.problem.vehicles.size)
    (departure : Instant) :
    s.problem.Yields (fun _ => True) (s.firstPlace r base vehicle departure) := by
  unfold firstPlace
  rw [free, Bool.not_true, if_neg Bool.false_ne_true]
  apply (yields_vehicle drives).bind
  intro v _ among
  apply Yields.bind (.of_answer (Plan.route_eq_ok.mpr knows.found) rfl)
  rintro _ _ rfl
  exact Walk.yields_scan guided.linked among knows.stops
    (knows.yields_lookForBase (t := ⟨r, vehicle, v, departure, _⟩) guided among _)
    (guided.linked.depots _ among) _

end

end Survey

end Haulage

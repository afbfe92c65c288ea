/-
Module: Haulage.Proofs.Evaluations
Purpose: Evaluations on a standing plan.  Whatever route, vehicle and departure are tried for a job
  that is unassigned, the evaluation answers or fails in a way that is excused.  It never lacks a
  base.
Main exports: Settings.Reliable, Work.Ready, Survey.yields_cheapest, Fill.yields_bestOffer,
  Survey.yields_firstPlace, Room.markFullRoutes_answers
-/
import Haulage.Proofs.Standing
import Haulage.Proofs.Surveys
import Haulage.Proofs.Unloading

namespace Haulage

variable {α : Type} [Quantity α]

open Problem

/-! ### Dependable settings -/

/-- Only unload sites are offered.  Where the question makes sense, the answer does not fail but in a
way that is excused. -/
structure Settings.Reliable (p : Problem α) (settings : Settings α) : Prop where
  offers : ∀ query : LocationQuery α, query.InRange p →
    p.Yields (fun _ => True) (settings.provider.offers query)
  sites : ∀ location, settings.provider.Offers location → location ∈ p.unloadLocations
  times : ∀ v ∈ p.vehicles, ∀ location ∈ p.unloadLocations, ∀ t,
    p.Yields (fun _ => True) (settings.serviceTimes v location t)

section

variable {p : Problem α} {settings : Settings α} {volumes : Volumes α} {location : Nat}

omit [Quantity α]

/-- Volumes that track all sites of a problem. -/
def Volumes.Tracks (p : Problem α) (volumes : Volumes α) : Prop :=
  ∀ location ∈ p.unloadLocations, (volumes.tracked? location).isSome = true

theorem reliable_constant {locations : List Nat} (sites : locations ⊆ p.unloadLocations)
    (provider : settings.provider = .constant locations)
    (times : settings.serviceTimes = .ofVehicle) : settings.Reliable p := by
  constructor
  · intro query _
    rw [provider]
    exact .ok trivial
  · rintro location ⟨query, offered, answer, member⟩
    rw [provider] at answer
    cases answer
    exact sites member
  · intro v _ location _ t
    rw [times]
    exact .ok trivial

end

variable {p : Problem α} {settings : Settings α} {volumes : Volumes α} {location : Nat}

omit [Quantity α] in
theorem Settings.Reliable.yields_offers (reliable : settings.Reliable p) {query : LocationQuery α}
    (inRange : query.InRange p) :
    p.Yields (fun offered => ∀ place ∈ offered, place ∈ p.unloadLocations)
      (settings.provider.offers query) :=
  ⟨fun offered answer place member => reliable.sites place ⟨query, offered, answer, member⟩,
    (reliable.offers query inRange).fails⟩

theorem Settings.Reliable.yields_cheapestLoadable (linked : p.Linked)
    (reliable : settings.Reliable p) (tracks : volumes.Tracks p) {query : LocationQuery α}
    (inRange : query.InRange p) (load : Load α) :
    p.Yields (fun chosen => ∀ location, chosen = some location → location ∈ p.unloadLocations)
      (cheapestLoadable p settings.provider volumes query load) :=
  Haulage.yields_cheapestLoadable linked linked.sites tracks (reliable.yields_offers inRange) inRange
    load

/-! ### Evaluations -/

/-- A standing plan under way, with volumes for all sites. -/
structure Work.Ready (p : Problem α) (bases : Nat) (w : Work α) : Prop where
  standing : w.plan.Standing p bases
  tracks : w.volumes.Tracks p

section

variable {bases r job base vehicle : Nat} {w : Work α} {route : Route} {departure : Instant}
  {allows : Bool}

omit [Quantity α] in
theorem Plan.InRange.hasStops (linked : p.Linked) (inRange : w.plan.InRange p bases)
    (found : w.plan.routes[r]? = some route) :
    ∀ stop ∈ route.stops, p.HasStop w.plan.pool stop := fun _ =>
  inRange.hasStop linked ⟨route.vehicle, Plan.itineraries_of_route found⟩

namespace Survey

/-- Under dependable settings a survey of a plan that is ready keeps to the unload sites. -/
theorem guided_of_ready (linked : p.Linked) (reliable : settings.Reliable p)
    (ready : w.Ready p bases) :
    (settings.survey p w.plan w.volumes allows).Guided (· ∈ p.unloadLocations) :=
  ⟨⟨fun _ inRange => reliable.yields_offers inRange, reliable.times⟩, linked, linked.sites,
    ready.tracks⟩

theorem knows_of_ready (linked : p.Linked) (ready : w.Ready p bases)
    (found : w.plan.routes[r]? = some route) :
    (settings.survey p w.plan w.volumes allows).Knows (· ∈ p.unloadLocations) r route :=
  ⟨found, ready.standing.inRange.drives found, ready.standing.inRange.hasStops linked found,
    fun _ _ unloads => ready.standing.unloadLocation unloads found⟩

/-- On each route an evaluation of a job that is unassigned answers, with any vehicle and departure.
There is always a base for a new trip. -/
theorem yields_cheapest (linked : p.Linked) (reliable : settings.Reliable p)
    (ready : w.Ready p bases) (most : p.destinations.size ≤ bases)
    (waits : job ∈ w.plan.unassigned) (known : r < p.vehicles.size)
    (drives : vehicle < p.vehicles.size) (departure : Instant) (bound : Bound α) :
    p.Yields (fun _ => True)
      ((settings.survey p w.plan w.volumes allows).cheapest r job vehicle departure bound) := by
  have inside := ready.standing.conserved.unassigned_lt waits
  obtain ⟨route, found⟩ := ready.standing.inRange.exists_route known
  have guided : (settings.survey p w.plan w.volumes allows).Guided (· ∈ p.unloadLocations) :=
    guided_of_ready linked reliable ready
  have knows : (settings.survey p w.plan w.volumes allows).Knows (· ∈ p.unloadLocations) r route :=
    knows_of_ready linked ready found
  have here : (settings.survey p w.plan w.volumes allows).plan.route r = .ok route :=
    Plan.route_eq_ok.mpr found
  rw [cheapest, here]
  apply (yields_vehicle drives).bind
  intro v _ among
  dsimp only
  split
  · exact .ok trivial
  · apply (yields_destination linked inside).bind
    intro d _ lies
    apply (knows.yields_switchCost (t := ⟨r, vehicle, v, departure, _⟩) linked among).bind
    intro routeCost _ _
    apply (knows.yields_scanTrips (t := ⟨r, vehicle, v, departure, _⟩) guided among inside lies
      routeCost bound).bind
    intro best _ _
    split
    · obtain ⟨base, lowest⟩ := ready.standing.allInTrips.exists_free most waits
      have lowest : (settings.survey p w.plan w.volumes allows).plan.pool.lowestFree? = some base :=
        lowest
      rw [lowest]
      apply (knows.yields_openTrip (t := ⟨r, vehicle, v, departure, _⟩) guided among inside lies
        routeCost _).bind
      intro opened _ _
      cases opened with
      | none => exact .ok trivial
      | some offer => exact .ok trivial
    · exact .ok trivial

theorem yields_cheapestOnRoute (linked : p.Linked) (reliable : settings.Reliable p)
    (ready : w.Ready p bases) (most : p.destinations.size ≤ bases)
    (waits : job ∈ w.plan.unassigned) (known : r < p.vehicles.size) (bound : Bound α) :
    p.Yields (fun _ => True)
      ((settings.survey p w.plan w.volumes allows).cheapestOnRoute job bound r) := by
  obtain ⟨route, found⟩ := ready.standing.inRange.exists_route known
  have here : (settings.survey p w.plan w.volumes allows).plan.route r = .ok route :=
    Plan.route_eq_ok.mpr found
  rw [cheapestOnRoute, here]
  have drives := ready.standing.inRange.drives found
  apply (Route.yields_departure drives).bind
  intro departure _ _
  exact yields_cheapest linked reliable ready most waits known drives departure bound

/-- A place is sought for a base that is free. -/
theorem yields_firstPlace (linked : p.Linked) (reliable : settings.Reliable p)
    (ready : w.Ready p bases) (free : w.plan.pool.isFree base = true)
    (known : r < p.vehicles.size) (drives : vehicle < p.vehicles.size) (departure : Instant) :
    p.Yields (fun _ => True)
      ((settings.survey p w.plan w.volumes allows).firstPlace r base vehicle departure) := by
  obtain ⟨route, found⟩ := ready.standing.inRange.exists_route known
  exact (knows_of_ready linked ready found).yields_firstPlace (guided_of_ready linked reliable ready)
    free drives departure

end Survey

/-! ### Marks and choices -/

theorem Work.Ready.marks {ledger : Ledger α} (ready : w.Ready p bases)
    (same : SameMarks ledger w.plan.ledger) :
    Work.Ready p bases { w with plan := { w.plan with ledger := ledger } } :=
  ⟨ready.standing.marks same, ready.tracks⟩

namespace Room

/-- Where volumes are tracked wherever the trips of a route unload, it is full or it is not. -/
theorem isFullFor_answers {plan : Plan α} (tracked : ∀ trip location,
      plan.ledger.unloadLocation? r trip = some location →
        (volumes.tracked? location).isSome = true)
    (v : Vehicle α) (demand : Load α) (trips : List Nat) :
    ∃ full, isFullFor plan volumes r v demand trips = .ok full := by
  induction trips with
  | nil => exact ⟨true, rfl⟩
  | cons trip rest inductionHypothesis =>
      obtain ⟨later, rests⟩ := inductionHypothesis
      rw [isFullFor, rests]
      split
      · exact ⟨later, rfl⟩
      · split
        · cases unloads : plan.ledger.unloadLocation? r trip with
          | none => exact ⟨false, rfl⟩
          | some location =>
              obtain ⟨takes, asked⟩ := Volumes.isLoadable_answers (tracked trip location unloads)
                demand
              dsimp only
              rw [asked]
              cases takes with
              | true => exact ⟨false, rfl⟩
              | false => exact ⟨later, rfl⟩
        · exact ⟨later, rfl⟩

/-- Where every route has a vehicle, and its trips unload where volumes are tracked, all routes can
be marked for a job. -/
theorem markFullRoutes_answers {plan : Plan α} (known : job < p.destinations.size)
    (drives : ∀ (r : Nat) (route : Route), plan.routes[r]? = some route →
      route.vehicle < p.vehicles.size)
    (tracked : ∀ (r : Nat) (route : Route), plan.routes[r]? = some route → ∀ trip location,
      plan.ledger.unloadLocation? r trip = some location →
        (volumes.tracked? location).isSome = true) :
    ∃ marked, markFullRoutes p plan volumes job = .ok marked := by
  have each : ∀ r ∈ plan.routeIds, ∃ full, isFull p plan volumes job r = .ok full := by
    intro r member
    obtain ⟨route, found⟩ : ∃ route, plan.routes[r]? = some route :=
      ⟨_, List.getElem?_eq_getElem (List.mem_range.mp member)⟩
    have inside := drives r route found
    obtain ⟨full, asked⟩ := isFullFor_answers (tracked r route found) p.vehicles[route.vehicle]
      p.destinations[job].demand (List.range (plan.ledger.tripCount r))
    refine ⟨full, ?_⟩
    simp only [isFull, bind_eq_ok, Plan.route_eq_ok]
    exact ⟨_, orOutOfTable_getElem known, route, found, _, orOutOfTable_getElem inside, asked⟩
  obtain ⟨full, asked⟩ := mapM_answers each
  rw [markFullRoutes, asked]
  exact ⟨_, rfl⟩

/-- The marks for a job are set, and leave everything else as it is. -/
theorem yields_markFullRoutes (ready : w.Ready p bases) (known : job < p.destinations.size) :
    p.Yields (fun marked => ∃ ledger, marked = { w.plan with ledger := ledger } ∧
      SameMarks ledger w.plan.ledger) (markFullRoutes p w.plan w.volumes job) := by
  obtain ⟨marked, done⟩ : ∃ marked, markFullRoutes p w.plan w.volumes job = .ok marked :=
    markFullRoutes_answers known (fun _ _ => ready.standing.inRange.drives)
      fun r route found trip location unloads =>
        ready.tracks location (ready.standing.unloadLocation unloads found)
  obtain ⟨ledger, equal, same, _⟩ := markFullRoutes_eq_ok done
  exact .of_answer done ⟨ledger, equal, same⟩

end Room

namespace Fill

theorem Choice.yields_consider {c : Choice α} {answer : Except Failure (Option (Offer α))}
    (enough : c.poolExhausted = false) (yields : p.Yields (fun _ => True) answer) :
    p.Yields (fun next => next.poolExhausted = false) (c.consider answer) := by
  cases answer with
  | ok offer? =>
      cases offer? with
      | none => exact .ok enough
      | some offer =>
          refine .ok ?_
          split
          · exact enough
          · exact enough
  | error e =>
      have excused := yields.fails e rfl
      obtain ⟨f, rfl⟩ := excused.isFault
      exact .error excused

/-- The search for the best offer answers, and never for lack of a base. -/
theorem yields_bestOffer (linked : p.Linked) (reliable : settings.Reliable p)
    (ready : w.Ready p bases) (most : p.destinations.size ≤ bases)
    (waits : job ∈ w.plan.unassigned) (allows : Bool) (threads : Threads) :
    p.Yields (fun choice => choice.poolExhausted = false)
      (bestOffer (settings.survey p w.plan w.volumes allows) threads job) := by
  have asks (r : Nat) (member : r ∈ w.plan.routeIds) (bound : Bound α) :
      p.Yields (fun _ => True)
        ((settings.survey p w.plan w.volumes allows).cheapestOnRoute job bound r) := by
    apply Survey.yields_cheapestOnRoute linked reliable ready most waits
    rw [← ready.standing.inRange.length_routes]
    exact List.mem_range.mp member
  unfold bestOffer
  split
  · unfold chooseSideBySide
    apply Yields.bind (Q := fun answers => ∀ answer ∈ answers, p.Yields (fun _ => True) answer)
    · apply Yields.mapM
      intro r member
      have yields := asks r member none
      cases answer : (settings.survey p w.plan w.volumes allows).cheapestOnRoute job none r with
      | ok offer? => exact .ok (.ok trivial)
      | error e =>
          have excused := yields.fails e answer
          obtain ⟨f, rfl⟩ := excused.isFault
          exact .error excused
    · intro answers _ all
      have compares : ∀ answer ∈ answers, ∀ c : Choice α, c.poolExhausted = false →
          p.Yields (fun next => next.poolExhausted = false) (c.consider answer) :=
        fun answer member c enough => Choice.yields_consider enough (all answer member)
      exact Yields.foldlM compares rfl
  · suffices along : ∀ (routes : List Nat) (c : Choice α), (∀ r ∈ routes, r ∈ w.plan.routeIds) →
        c.poolExhausted = false → p.Yields (fun choice => choice.poolExhausted = false)
          (chooseInTurn (settings.survey p w.plan w.volumes allows) job c routes) from
      along _ _ (fun _ => id) rfl
    intro routes
    induction routes with
    | nil => exact fun c _ enough => .ok enough
    | cons r rest inductionHypothesis =>
        intro c among enough
        apply (Choice.yields_consider enough (asks r (among r List.mem_cons_self) _)).bind
        intro next _ enoughNow
        exact inductionHypothesis next (fun r member => among r (List.mem_cons_of_mem _ member))
          enoughNow

end Fill

end

end Haulage

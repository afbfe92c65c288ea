/-
Module: Haulage.Proofs.Visit
Purpose: The visit of a route that places its bases anew.  The stops passed are trips that were
  placed and a trip under way, and each base either closes that trip anew or goes with it.
Main exports: Work.removeStops_eq_ok, Visiting, Places, Drops, Work.placeBases_ends,
  Work.placeRoute_ends
-/
import Haulage.Proofs.Changes
import Haulage.Proofs.Faults
import Haulage.Proofs.Loads
import Haulage.Proofs.Offers
import Haulage.Proofs.Volumes
import Mathlib.Data.List.Induction

namespace Haulage

variable {α : Type} [Quantity α]

open Attempt

namespace Work

omit [Quantity α] in
/-- Stops that are removed one by one, the last one first, are handed back in that order, and the
jobs among them are listed as they were served. -/
theorem removeStops_eq_ok {plan after : Plan α} {r : Nat} {route : Route} {jobs : List Nat}
    (before taken rest : List Stop) (found : plan.routes[r]? = some route)
    (split : route.stops = before ++ (taken ++ rest))
    (done : removeStops plan r before.length taken.length = .ok (jobs, after)) :
    jobs = taken.filterMap (·.job?) ∧ taken.reverse.foldlM Plan.handBack
      (plan.setRoute r { route with stops := before ++ rest }) = .ok after := by
  induction taken using List.reverseRecOn generalizing plan route jobs rest with
  | nil =>
      cases done
      rw [List.nil_append] at split
      rw [← split]
      exact ⟨rfl, congrArg Except.ok (Plan.setRoute_self found)⟩
  | append_singleton init stop inductionHypothesis =>
      simp only [List.length_append, List.length_singleton, removeStops, bind_eq_ok] at done
      rcases done with ⟨⟨removed, shorter⟩, first, ⟨others, last⟩, later, equal⟩
      cases equal
      obtain ⟨same, foundAgain, here, handed⟩ := Plan.removeStop_eq_ok.mp first
      rw [found] at foundAgain
      cases foundAgain
      have whole : route.stops = (before ++ init) ++ stop :: rest := by simp [split]
      have position : (before ++ init).length = before.length + init.length := by simp
      rw [whole, ← position, List.getElem?_append_right (Nat.le_refl _), Nat.sub_self] at here
      cases here
      rw [whole, ← position, List.eraseIdx_append_of_length_le (Nat.le_refl _), Nat.sub_self,
        List.eraseIdx_cons_zero] at handed
      have kept := (Plan.handBack_keeps handed).1
      have foundNow : shorter.routes[r]? =
          some { route with stops := before ++ init ++ rest } := by
        rw [kept]
        exact Plan.routes_setRoute_self found
      obtain ⟨rfl, tail⟩ := inductionHypothesis rest foundNow (List.append_assoc before init rest)
        later
      have head := Plan.handBack_setRoute r { route with stops := before ++ rest } handed
      rw [Plan.setRoute_setRoute] at head
      rw [List.reverse_append, List.reverse_singleton, List.singleton_append, List.foldlM_cons,
        bind_eq_ok, List.filterMap_append]
      refine ⟨congrArg (init.filterMap (·.job?) ++ ·) ?_, _, head, tail⟩
      cases stop with
      | destination job => rfl
      | base b => rfl

end Work

/-- How far the visit of a route has come: beyond some trips that were placed, and the jobs of the
trip under way. -/
structure Visiting (p : Problem α) (plan : Plan α) (r : Nat) (s : PlacementState α)
    (placed : List Stop) (trip : List Nat) (rest : List Stop) : Prop where
  visits : plan.Visits r (placed ++ (trip.map .destination ++ rest))
  start_eq : s.tripStart = placed.length
  passed_eq : s.passed = trip.length
  load_eq : s.load = p.demandOf trip

/-- A location that is offered for some base. -/
def LocationProvider.Offers (provider : LocationProvider α) (location : Nat) : Prop :=
  ∃ query offers, provider.offers query = .ok offers ∧ location ∈ offers

/-- A trip is closed by its base at a location that takes it. -/
structure Places (p : Problem α) (settings : Settings α) (r : Nat) (placed : List Stop)
    (trip : List Nat) (b : Nat) (rest : List Stop) (location : Nat) (duration : Duration)
    (w next : Work α) : Prop where
  visits : w.plan.Visits r (placed ++ (trip.map .destination ++ .base b :: rest))
  offered : settings.provider.Offers location
  loadable : w.volumes.isLoadable location (p.demandOf trip) = .ok true
  plan_eq : ∃ plan, w.plan.placeBase b location duration = .ok plan ∧
    plan.refreshRoute p r = .ok next.plan
  volumes_eq : w.volumes.add location (p.demandOf trip) = .ok next.volumes

/-- A trip is removed with its base. -/
structure Drops (p : Problem α) (r : Nat) (placed : List Stop) (trip : List Nat) (b : Nat)
    (rest : List Stop) (w next : Work α) : Prop where
  plan_eq : ∃ route plan, w.plan.routes[r]? = some route ∧
    route.stops = placed ++ (trip.map .destination ++ .base b :: rest) ∧
    (.base b :: (trip.map Stop.destination).reverse).foldlM Plan.handBack
      (w.plan.setRoute r { route with stops := placed ++ rest }) = .ok plan ∧
    plan.refreshRoute p r = .ok next.plan
  volumes_eq : next.volumes = w.volumes

theorem Places.itineraries_eq {p : Problem α} {settings : Settings α} {r b location : Nat}
    {placed rest : List Stop} {trip : List Nat} {duration : Duration} {w next : Work α}
    (places : Places p settings r placed trip b rest location duration w next) :
    next.plan.itineraries = w.plan.itineraries := by
  rcases places.plan_eq with ⟨plan, put, refreshed⟩
  obtain ⟨_, rfl⟩ := Plan.placeBase_eq_ok.mp put
  exact (Plan.refreshRoute_keeps refreshed).1

theorem Drops.itineraries_eq {p : Problem α} {r b vehicle : Nat} {placed rest stops : List Stop}
    {trip : List Nat} {w next : Work α} (drops : Drops p r placed trip b rest w next)
    (found : w.plan.itineraries[r]? = some (vehicle, stops)) :
    next.plan.itineraries = w.plan.itineraries.set r (vehicle, placed ++ rest) := by
  rcases drops.plan_eq with ⟨route, plan, foundAgain, _, handed, refreshed⟩
  obtain ⟨same, here, rfl, _⟩ := Plan.itineraries_eq_some.mp found
  rw [foundAgain] at here
  cases here
  have kept := (Plan.handBackAll_keeps handed).1
  rw [(Plan.refreshRoute_keeps refreshed).1, Plan.itineraries, kept, ← Plan.itineraries,
    Plan.itineraries_setRoute]

/-! ### Where the other bases lie -/

section

variable {p : Problem α} {settings : Settings α} {r b location jobs bases : Nat}
  {placed rest : List Stop} {trip : List Nat} {duration : Duration} {w next : Work α}

theorem Places.locationOf_self
    (places : Places p settings r placed trip b rest location duration w next) :
    next.plan.pool.locationOf b = some location := by
  rcases places.plan_eq with ⟨plan, put, refreshed⟩
  obtain ⟨inside, rfl⟩ := Plan.placeBase_eq_ok.mp put
  rw [(Plan.refreshRoute_keeps refreshed).2.1]
  exact BasePool.locationOf_placed_self inside

theorem Places.base_of_ne {c : Nat}
    (places : Places p settings r placed trip b rest location duration w next) (apart : b ≠ c) :
    next.plan.pool.base c = w.plan.pool.base c := by
  rcases places.plan_eq with ⟨plan, put, refreshed⟩
  obtain ⟨_, rfl⟩ := Plan.placeBase_eq_ok.mp put
  rw [(Plan.refreshRoute_keeps refreshed).2.1]
  exact BasePool.base_modifyEntry_of_ne apart _

theorem Places.locationOf_of_ne {c : Nat}
    (places : Places p settings r placed trip b rest location duration w next) (apart : b ≠ c) :
    next.plan.pool.locationOf c = w.plan.pool.locationOf c :=
  BasePool.locationOf_congr (places.base_of_ne apart)

theorem Places.changesAt (conserved : Plan.Conserved jobs bases w.plan)
    (places : Places p settings r placed trip b rest location duration w next) :
    Plan.ChangesAt r w.plan next.plan := by
  rcases places.plan_eq with ⟨plan, put, refreshed⟩
  exact (Plan.ChangesAt.placeBase (conserved.alone places.visits (by simp)) put).trans
    (.refreshRoute refreshed)

theorem Places.agrees (conserved : Plan.Conserved jobs bases w.plan)
    (places : Places p settings r placed trip b rest location duration w next)
    (agrees : ∀ i, w.plan.Agrees p i) (i : Nat) : next.plan.Agrees p i := by
  have own : next.plan.Agrees p r := by
    rcases places.plan_eq with ⟨_, _, refreshed⟩
    exact (Plan.refreshRoute_agrees refreshed).1
  exact Plan.agrees_of_changesAt agrees (places.changesAt conserved) own i

theorem Drops.visits (drops : Drops p r placed trip b rest w next) :
    w.plan.Visits r (placed ++ (trip.map .destination ++ .base b :: rest)) := by
  rcases drops.plan_eq with ⟨route, _, found, whole, _⟩
  exact ⟨route.vehicle, Plan.itineraries_eq_some.mpr ⟨route, found, rfl, whole⟩⟩

theorem Drops.visitsNow (drops : Drops p r placed trip b rest w next) :
    next.plan.Visits r (placed ++ rest) := by
  rcases drops.visits with ⟨vehicle, found⟩
  refine ⟨vehicle, ?_⟩
  rw [drops.itineraries_eq found, List.getElem?_set_self (List.getElem?_eq_some_iff.mp found).1]

theorem Drops.changesAt (conserved : Plan.Conserved jobs bases w.plan)
    (drops : Drops p r placed trip b rest w next) : Plan.ChangesAt r w.plan next.plan := by
  have visits := drops.visits
  rcases drops.plan_eq with ⟨route, plan, _, _, handed, refreshed⟩
  have taken := Plan.ChangesAt.setRoute w.plan r { route with stops := placed ++ rest }
  refine (taken.trans (Plan.ChangesAt.handBackAll (fun c member => ?_) handed)).trans
    (.refreshRoute refreshed)
  have same : c = b := by simpa using member
  exact same ▸ taken.toChangesOnly.alone (conserved.alone visits (by simp))

theorem Drops.agrees (conserved : Plan.Conserved jobs bases w.plan)
    (drops : Drops p r placed trip b rest w next) (agrees : ∀ i, w.plan.Agrees p i) (i : Nat) :
    next.plan.Agrees p i := by
  have own : next.plan.Agrees p r := by
    rcases drops.plan_eq with ⟨_, _, _, _, _, refreshed⟩
    exact (Plan.refreshRoute_agrees refreshed).1
  exact Plan.agrees_of_changesAt agrees (drops.changesAt conserved) own i

/-- The bases of the other trips stay as they are. -/
theorem Drops.base_eq {c : Nat} (conserved : Plan.Conserved jobs bases w.plan)
    (drops : Drops p r placed trip b rest w next) (member : .base c ∈ placed ++ rest) :
    next.plan.pool.base c = w.plan.pool.base c := by
  have behind : Stop.base b ∈ placed ++ (trip.map .destination ++ .base b :: rest) := by simp
  have once := (conserved.once_of_visits drops.visits behind).1
  rcases drops.plan_eq with ⟨_, _, _, _, handed, refreshed⟩
  rw [(Plan.refreshRoute_keeps refreshed).2.1]
  have apart : Stop.base c ∉ Stop.base b :: (trip.map Stop.destination).reverse := by
    intro among
    obtain rfl : c = b := by simpa using among
    have twice := List.count_pos_iff.mpr member
    simp only [List.count_append, List.count_cons_self] at once twice
    omega
  have kept := Plan.base_handBackAll apart handed
  exact kept

theorem Drops.locationOf_eq {c : Nat} (conserved : Plan.Conserved jobs bases w.plan)
    (drops : Drops p r placed trip b rest w next) (member : .base c ∈ placed ++ rest) :
    next.plan.pool.locationOf c = w.plan.pool.locationOf c :=
  BasePool.locationOf_congr (drops.base_eq conserved member)

end

namespace PlacementState

/-- How far the visit has come when the trip under way unloads at a location. -/
def behind (s : PlacementState α) (location : Nat) : PlacementState α :=
  { tripStart := s.tripStart + s.passed + 1, passed := 0, load := .empty, trip := s.trip + 1,
    counts := countTrip location s.counts }

/-- How far the visit had come at the beginning of the trip under way. -/
def atTrip (s : PlacementState α) : PlacementState α := { s with passed := 0, load := .empty }

end PlacementState

/-- The visit goes on behind a trip that was placed. -/
theorem Visiting.places {p : Problem α} {settings : Settings α} {r b location : Nat}
    {duration : Duration} {s : PlacementState α} {placed rest : List Stop} {trip : List Nat}
    {w next : Work α} (visiting : Visiting p w.plan r s placed trip (.base b :: rest))
    (places : Places p settings r placed trip b rest location duration w next) :
    Visiting p next.plan r (s.behind location)
      (placed ++ (trip.map .destination ++ [.base b])) [] rest := by
  rcases visiting.visits with ⟨vehicle, stops⟩
  refine ⟨⟨vehicle, ?_⟩, ?_, rfl, rfl⟩
  · rw [places.itineraries_eq, stops]
    simp
  · simp [PlacementState.behind, visiting.start_eq, visiting.passed_eq]
    omega

/-- The visit goes on where a trip was removed. -/
theorem Visiting.drops {p : Problem α} {r b : Nat} {s : PlacementState α}
    {placed rest : List Stop} {trip : List Nat} {w next : Work α}
    (visiting : Visiting p w.plan r s placed trip (.base b :: rest))
    (drops : Drops p r placed trip b rest w next) :
    Visiting p next.plan r s.atTrip placed [] rest := by
  rcases visiting.visits with ⟨vehicle, stops⟩
  obtain ⟨inside, _⟩ := List.getElem?_eq_some_iff.mp stops
  refine ⟨⟨vehicle, ?_⟩, visiting.start_eq, rfl, rfl⟩
  rw [drops.itineraries_eq stops, List.getElem?_set_self inside]
  rfl

namespace Work

/-- What placing a base at a chosen location comes to. -/
theorem placeAt_eq_ok {p : Problem α} {settings : Settings α} {plan after : Plan α}
    {r b location position : Nat} {query : LocationQuery α} :
    placeAt p settings plan r b location query position = .ok after ↔
      ∃ route visit arrival duration, plan.routes[r]? = some route ∧
        route.visits[position - 1]? = some visit ∧
        p.arrival query.vehicle query.previous (some location) visit.departure = .ok arrival ∧
        settings.serviceTimes query.vehicle location arrival = .ok duration ∧
        plan.placeBase b location duration = .ok after := by
  simp only [placeAt, bind_eq_ok, Plan.route_eq_ok, Route.visit, orOutOfTable_eq_ok]
  constructor
  · rintro ⟨route, found, visit, there, arrival, arrives, duration, takes, put⟩
    exact ⟨route, visit, arrival, duration, found, there, arrives, takes, put⟩
  · rintro ⟨route, visit, arrival, duration, found, there, arrives, takes, put⟩
    exact ⟨route, found, visit, there, arrival, arrives, duration, takes, put⟩

/-- What is asked for a base behind a job. -/
theorem placementQuery_behind_job {p : Problem α} {plan : Plan α} {r job b : Nat} {route : Route}
    {s : PlacementState α} {before after : List Stop} {query : LocationQuery α}
    (found : plan.routes[r]? = some route)
    (split : route.stops = before ++ .destination job :: .base b :: after)
    (position : s.tripStart + s.passed = before.length + 1)
    (asked : placementQuery p plan r s = .ok query) :
    p.vehicle route.vehicle = .ok query.vehicle ∧
      (∃ d, p.destination job = .ok d ∧ query.previous = some d.location) ∧
      p.headsFor plan.pool query.vehicle none after = .ok query.next := by
  have here : route.stops[before.length]? = some (.destination job) := by simp [split]
  have behind : route.stops[before.length + 1 + 1]? = after.head? := by
    rw [split, List.getElem?_append_right (by omega), List.head?_eq_getElem?]
    have shift : before.length + 1 + 1 - before.length = 2 := by omega
    rw [shift]
    rfl
  simp only [placementQuery, position, bind_eq_ok, Plan.route_eq_ok] at asked
  rcases asked with ⟨_, again, v, driven, asked⟩
  cases found.symm.trans again
  simp only [here, behind, orOutOfTable_some, Problem.stopLocation, bind_eq_ok, Except.ok.injEq,
    exists_eq_left'] at asked
  rcases asked with ⟨_, ⟨d, served, rfl⟩, asked⟩
  cases after with
  | nil =>
      cases asked
      exact ⟨driven, ⟨d, served, rfl⟩, rfl⟩
  | cons stop rest =>
      simp only [List.head?_cons, bind_eq_ok] at asked
      rcases asked with ⟨next, lies, equal⟩
      cases equal
      refine ⟨driven, ⟨d, served, rfl⟩, ?_⟩
      simp only [Problem.headsFor, bind_eq_ok]
      exact ⟨next, lies, by simp⟩

/-- A location is the best one for the base that a visit has come to, and the base is put there. -/
def Chooses (p : Problem α) (settings : Settings α) (r : Nat) (s : PlacementState α)
    (b location : Nat) (w : Work α) (put : Plan α) : Prop :=
  ∃ query, placementQuery p w.plan r s = .ok query ∧
    cheapestLoadable p settings.provider w.volumes query s.load = .ok (some location) ∧
    placeAt p settings w.plan r b location query (s.tripStart + s.passed) = .ok put

/-- The next step of a visit fails before it changes anything.  At a job there is no such job.  At a
base no location can be chosen, or the base cannot be put there, or its trip cannot be taken out. -/
inductive Halts (p : Problem α) (settings : Settings α) (r : Nat) (s : PlacementState α)
    (w : Work α) : List Stop → Failure → Prop
  | serving {job : Nat} {rest : List Stop} {e : Failure} (failed : p.destination job = .error e) :
      Halts p settings r s w (.destination job :: rest) e
  | asking {b : Nat} {rest : List Stop} {e : Failure}
      (failed : placementQuery p w.plan r s = .error e) :
      Halts p settings r s w (.base b :: rest) e
  | choosing {b : Nat} {rest : List Stop} {e : Failure} {query : LocationQuery α}
      (asked : placementQuery p w.plan r s = .ok query)
      (failed : cheapestLoadable p settings.provider w.volumes query s.load = .error e) :
      Halts p settings r s w (.base b :: rest) e
  | putting {b location : Nat} {rest : List Stop} {e : Failure} {query : LocationQuery α}
      (asked : placementQuery p w.plan r s = .ok query)
      (choice : cheapestLoadable p settings.provider w.volumes query s.load = .ok (some location))
      (failed : placeAt p settings w.plan r b location query (s.tripStart + s.passed) = .error e) :
      Halts p settings r s w (.base b :: rest) e
  | removing {b : Nat} {rest : List Stop} {e : Failure}
      (failed : removeStops w.plan r s.tripStart (s.passed + 1) = .error e) :
      Halts p settings r s w (.base b :: rest) e
  | closing {b : Nat} {rest : List Stop} {e : Failure} {jobs : List Nat} {plan : Plan α}
      (removed : removeStops w.plan r s.tripStart (s.passed + 1) = .ok (jobs, plan))
      (failed : plan.refreshRoute p r = .error e) :
      Halts p settings r s w (.base b :: rest) e

/-- With dependable settings a step of a visit fails by a fault. -/
theorem Halts.isFault {p : Problem α} {settings : Settings α} {r : Nat} {s : PlacementState α}
    {w : Work α} {rest : List Stop} {e : Failure} (halts : Halts p settings r s w rest e)
    (dependable : Dependable settings w.volumes) : ∀ reason, e ≠ .refused reason := by
  cases halts with
  | serving failed => exact (NeverRefuses.destination p _).isFault failed
  | asking failed => exact (NeverRefuses.placementQuery p w.plan r s).isFault failed
  | choosing _ failed => exact (NeverRefuses.cheapestLoadable dependable p _ _).isFault failed
  | putting _ _ failed => exact (NeverRefuses.placeAt dependable p _ _ _ _ _ _).isFault failed
  | removing failed => exact (NeverRefuses.removeStops _ _ _ _).isFault failed
  | closing _ failed => exact (NeverRefuses.refreshRoute p _ r).isFault failed

/-- A visit passes a job, which joins the trip under way. -/
theorem placeBases_destination_ends {p : Problem α} {settings : Settings α} {r job : Nat}
    {Q : List Nat → Work α → Prop} {E : Failure → Work α → Prop} {placed rest : List Stop}
    {trip : List Nat} {s : PlacementState α} {w : Work α}
    (visiting : Visiting p w.plan r s placed trip (.destination job :: rest))
    (fails : ∀ e, Halts p settings r s w (.destination job :: rest) e → E e w)
    (passes : ∀ d, p.destination job = .ok d →
      let passed := { s with passed := s.passed + 1, load := s.load + d.demand }
      Visiting p w.plan r passed placed (trip ++ [job]) rest →
      Ends (placeBases p settings r passed rest) Q E w) :
    Ends (placeBases p settings r s (.destination job :: rest)) Q E w := by
  simp only [placeBases, ends_bind, ends_ofResult]
  constructor
  · intro d served
    rcases visiting.visits with ⟨vehicle, stops⟩
    apply passes d served
    refine ⟨⟨vehicle, by simpa using stops⟩, visiting.start_eq, ?_, ?_⟩
    · simp [visiting.passed_eq]
    · rw [Problem.demandOf_append_singleton, Problem.demand_eq served, ← visiting.load_eq]
  · intro e failed
    exact fails e (.serving failed)

section

variable {p : Problem α} {settings : Settings α} {r b location : Nat} {query : LocationQuery α}
  {Q : Work α → Prop} {E : Failure → Work α → Prop} {placed rest : List Stop} {trip : List Nat}
  {s : PlacementState α} {w : Work α}

/-- Puts a base at the location that was chosen for it, which takes up the load. -/
def putBase (p : Problem α) (settings : Settings α) (r : Nat) (s : PlacementState α)
    (b location : Nat) (query : LocationQuery α) (w : Work α) : Attempt (Work α) Unit := do
  let plan ← Attempt.ofResult
    (placeAt p settings w.plan r b location query (s.tripStart + s.passed))
  set { w with plan := plan }
  let volumes ← Attempt.ofResult (w.volumes.add location s.load)
  let plan ← Attempt.ofResult (plan.refreshRoute p r)
  set (⟨plan, volumes⟩ : Work α)

/-- Takes the trip under way out of the route, and lists its jobs. -/
def dropTrip (p : Problem α) (r : Nat) (s : PlacementState α) (w : Work α) :
    Attempt (Work α) (List Nat) := do
  let (jobs, plan) ← Attempt.ofResult (removeStops w.plan r s.tripStart (s.passed + 1))
  let plan ← Attempt.ofResult (plan.refreshRoute p r)
  set { w with plan := plan }
  return jobs

/-- A visit that comes to a base. -/
theorem placeBases_base (p : Problem α) (settings : Settings α) (r b : Nat)
    (s : PlacementState α) (rest : List Stop) :
    placeBases p settings r s (.base b :: rest) = (do
      let w ← get
      let query ← Attempt.ofResult (placementQuery p w.plan r s)
      let chosen ← Attempt.ofResult
        (cheapestLoadable p settings.provider w.volumes query s.load)
      match chosen with
      | some location => do
        putBase p settings r s b location query w
        placeBases p settings r (s.behind location) rest
      | none => do
        let jobs ← dropTrip p r s w
        let later ← placeBases p settings r s.atTrip rest
        return jobs ++ later) := by
  simp only [placeBases, putBase, dropTrip, bind_assoc, pure_bind]
  rfl

/-- A base that was put somewhere.  A failure leaves the plan as it was, or as it is with the base
there, where only the refresh of the route may fail. -/
theorem putBase_ends (visiting : Visiting p w.plan r s placed trip (.base b :: rest))
    (asked : placementQuery p w.plan r s = .ok query)
    (choice : cheapestLoadable p settings.provider w.volumes query s.load = .ok (some location))
    (fails : ∀ e, Halts p settings r s w (.base b :: rest) e → E e w)
    (failsPlaced : ∀ plan duration e, settings.provider.Offers location →
      w.plan.placeBase b location duration = .ok plan → plan.refreshRoute p r = .error e →
      E e { w with plan := plan })
    (places : ∀ put next duration, Chooses p settings r s b location w put →
      put.refreshRoute p r = .ok next.plan →
      Places p settings r placed trip b rest location duration w next → Q next) :
    Ends (putBase p settings r s b location query w) (fun _ => Q) E w := by
  obtain ⟨offers, offered, among, takes⟩ := cheapestLoadable_eq_some choice
  simp only [putBase, ends_bind, ends_ofResult, ends_set]
  constructor
  · intro plan chosen
    obtain ⟨_, _, _, duration, _, _, _, _, put⟩ := placeAt_eq_ok.mp chosen
    refine ⟨fun volumes added => ⟨fun fresh refreshed => ?_, fun e failed => ?_⟩,
      fun e failed => ?_⟩
    · have step : Places p settings r placed trip b rest location duration w ⟨fresh, volumes⟩ :=
        ⟨visiting.visits, ⟨query, offers, offered, among⟩, visiting.load_eq ▸ takes,
          ⟨plan, put, refreshed⟩, visiting.load_eq ▸ added⟩
      exact places plan _ _ ⟨query, asked, choice, chosen⟩ refreshed step
    · exact failsPlaced _ _ _ ⟨query, offers, offered, among⟩ put failed
    · obtain ⟨volumes, added⟩ := Volumes.add_answers takes s.load
      cases added.symm.trans failed
  · intro e failed
    exact fails e (.putting asked choice failed)

/-- A trip that was taken out with its base. -/
theorem dropTrip_ends {Q : List Nat → Work α → Prop}
    (visiting : Visiting p w.plan r s placed trip (.base b :: rest))
    (fails : ∀ e, Halts p settings r s w (.base b :: rest) e → E e w)
    (drops : ∀ next, Drops p r placed trip b rest w next → Q trip next) :
    Ends (dropTrip p r s w) Q E w := by
  simp only [dropTrip, ends_bind, ends_ofResult, ends_set, ends_pure]
  constructor
  · rintro ⟨jobs, plan⟩ removed
    constructor
    · intro fresh refreshed
      rcases visiting.visits with ⟨vehicle, stops⟩
      obtain ⟨route, found, vehicleEq, whole⟩ := Plan.itineraries_eq_some.mp stops
      obtain ⟨listed, handed⟩ := removeStops_eq_ok placed (trip.map .destination ++ [.base b]) rest
        found (by simp [whole]) (by
          simpa [visiting.start_eq, visiting.passed_eq] using removed)
      obtain rfl : jobs = trip := by
        rw [listed, List.filterMap_append, List.filterMap_map]
        simp [Function.comp_def, Stop.job?]
      exact drops _ ⟨⟨route, plan, found, whole, by simpa using handed, refreshed⟩, rfl⟩
    · intro e failed
      exact fails e (.closing removed failed)
  · intro e failed
    exact fails e (.removing failed)

/-- A visit comes to a base, which is placed, or taken out with its trip.  A failure leaves the plan
before the step, or one in which the base was put somewhere. -/
theorem placeBases_base_ends (visiting : Visiting p w.plan r s placed trip (.base b :: rest))
    (fails : ∀ e, Halts p settings r s w (.base b :: rest) e → E e w)
    (failsPlaced : ∀ plan location duration e, settings.provider.Offers location →
      w.plan.placeBase b location duration = .ok plan → plan.refreshRoute p r = .error e →
      E e { w with plan := plan })
    (places : ∀ put next location duration, Chooses p settings r s b location w put →
      put.refreshRoute p r = .ok next.plan →
      Places p settings r placed trip b rest location duration w next →
      Visiting p next.plan r (s.behind location)
        (placed ++ (trip.map .destination ++ [.base b])) [] rest →
      Ends (placeBases p settings r (s.behind location) rest) (fun _ => Q) E next)
    (drops : ∀ next, Drops p r placed trip b rest w next →
      Visiting p next.plan r s.atTrip placed [] rest →
      Ends (placeBases p settings r s.atTrip rest) (fun _ => Q) E next) :
    Ends (placeBases p settings r s (.base b :: rest)) (fun _ => Q) E w := by
  rw [placeBases_base]
  simp only [ends_bind, ends_get, ends_ofResult]
  refine ⟨fun query asked => ⟨fun chosen choice => ?_, fun e failed => ?_⟩, fun e failed => ?_⟩
  · cases chosen with
    | some location =>
        simp only [ends_bind]
        apply putBase_ends visiting asked choice fails
        · exact fun plan duration => failsPlaced plan location duration
        · intro put next duration chooses refreshed step
          exact places put next location duration chooses refreshed step (visiting.places step)
    | none =>
        rw [ends_bind]
        apply dropTrip_ends visiting fails
        intro next step
        rw [ends_bind]
        exact drops next step (visiting.drops step)
  · exact fails e (.choosing asked failed)
  · exact fails e (.asking failed)

end

/-- What every step of a visit keeps holds when the visit is over. -/
theorem placeBases_ends {p : Problem α} {settings : Settings α} {r : Nat}
    (I : List Stop → List Nat → List Stop → Work α → Prop) {E : Failure → Work α → Prop}
    (serves : ∀ placed trip job rest w, I placed trip (.destination job :: rest) w →
      I placed (trip ++ [job]) rest w)
    (places : ∀ placed trip b rest w next location duration,
      I placed trip (.base b :: rest) w →
      Places p settings r placed trip b rest location duration w next →
      I (placed ++ (trip.map .destination ++ [.base b])) [] rest next)
    (drops : ∀ placed trip b rest w next, I placed trip (.base b :: rest) w →
      Drops p r placed trip b rest w next → I placed [] rest next)
    (fails : ∀ placed trip rest s w e, I placed trip rest w →
      Visiting p w.plan r s placed trip rest → Halts p settings r s w rest e → E e w)
    (failsPlaced : ∀ placed trip b rest w plan location duration e,
      I placed trip (.base b :: rest) w →
      w.plan.Visits r (placed ++ (trip.map .destination ++ .base b :: rest)) →
      settings.provider.Offers location → w.plan.placeBase b location duration = .ok plan →
      plan.refreshRoute p r = .error e → E e { w with plan := plan })
    {placed : List Stop} {trip : List Nat} {rest : List Stop} {s : PlacementState α} {w : Work α}
    (holds : I placed trip rest w) (visiting : Visiting p w.plan r s placed trip rest) :
    Ends (placeBases p settings r s rest)
      (fun _ next => ∃ placed trip, I placed trip [] next ∧
        next.plan.Visits r (placed ++ trip.map .destination)) E w := by
  induction rest generalizing placed trip s w with
  | nil =>
      exact ⟨placed, trip, holds, by simpa using visiting.visits⟩
  | cons stop rest inductionHypothesis =>
      cases stop with
      | destination job =>
          apply placeBases_destination_ends visiting
          · intro e halts
            exact fails _ _ _ _ _ _ holds visiting halts
          · intro d served passed later
            exact inductionHypothesis (serves _ _ _ _ _ holds) later
      | base b =>
          apply placeBases_base_ends visiting
          · intro e halts
            exact fails _ _ _ _ _ _ holds visiting halts
          · intro plan location duration e offered put failed
            exact failsPlaced _ _ _ _ _ _ _ _ _ holds visiting.visits offered put failed
          · intro put next location duration chooses refreshed step later
            exact inductionHypothesis (places _ _ _ _ _ _ _ _ holds step) later
          · intro next step later
            exact inductionHypothesis (drops _ _ _ _ _ _ holds step) later

/-- Nothing has been passed when the visit of a route begins. -/
theorem visiting_start {p : Problem α} {plan : Plan α} {r : Nat} {stops : List Stop}
    (found : plan.Visits r stops) :
    Visiting p plan r ⟨0, 0, .empty, 0, []⟩ [] [] stops := ⟨found, rfl, rfl, rfl⟩

/-- The visit of a route begins with its repair. -/
theorem placeRoute_ends {p : Problem α} {settings : Settings α} {r : Nat} {w : Work α}
    {Q : List Nat → Work α → Prop} {E : Failure → Work α → Prop}
    (fails : ∀ e, w.plan.repairRoute p r = .error e → E e w)
    (visits : ∀ plan stops, w.plan.repairRoute p r = .ok plan → plan.Visits r stops →
      Ends (placeBases p settings r ⟨0, 0, .empty, 0, []⟩ stops) Q E { w with plan := plan }) :
    Ends (placeRoute p settings r) Q E w := by
  simp only [placeRoute, ends_bind, ends_get, ends_ofResult, ends_set]
  constructor
  · rintro ⟨count, cleared⟩ done
    constructor
    · intro plan refreshed
      have repaired : w.plan.repairRoute p r = .ok plan := by
        simp only [Plan.repairRoute, bind_eq_ok]
        exact ⟨(count, cleared), done, refreshed⟩
      obtain ⟨_, fresh, _, found, _, _, equal⟩ := Plan.refreshRoute_eq_ok refreshed
      have there : plan.routes[r]? = some fresh := by
        rw [equal]
        exact Plan.routes_setRoute_self found
      constructor
      · intro route again
        apply visits plan route.stops repaired
        exact ⟨route.vehicle, Plan.itineraries_of_route (Plan.route_eq_ok.mp again)⟩
      · intro e failed
        cases (Plan.route_eq_ok.mpr there).symm.trans failed
    · intro e failed
      apply fails e
      rw [Plan.repairRoute, bind_eq_error]
      exact .inr ⟨(count, cleared), done, failed⟩
  · intro e failed
    apply fails e
    rw [Plan.repairRoute, bind_eq_error]
    exact .inl failed

/-- What the visits of the routes keep in turn, all of them together keep. -/
theorem placeRoutes_ends {p : Problem α} {settings : Settings α} {E : Failure → Work α → Prop}
    (J : List Nat → Work α → Prop) {routes : List Nat}
    (each : ∀ visited r rest w, routes = visited ++ r :: rest → J visited w →
      Ends (placeRoute p settings r) (fun _ => J (visited ++ [r])) E w)
    {w : Work α} (begins : J [] w) :
    Ends (placeRoutes p settings routes) (fun _ => J routes) E w := by
  suffices along : ∀ rest visited w, routes = visited ++ rest → J visited w →
      Ends (placeRoutes p settings rest) (fun _ => J routes) E w from along routes [] w rfl begins
  intro rest
  induction rest with
  | nil =>
      intro visited w split holds
      rw [List.append_nil] at split
      exact split ▸ holds
  | cons r rest inductionHypothesis =>
      intro visited w split holds
      simp only [placeRoutes, ends_bind]
      refine (each visited r rest w split holds).mono (fun _ next kept => ?_)
        fun _ _ failed => failed
      simp only [ends_bind]
      exact inductionHypothesis (visited ++ [r]) next (by simp [split]) kept

end Work

end Haulage

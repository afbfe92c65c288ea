/-
Module: Haulage.Proofs.Unfailing
Purpose: The parts of a pass on a standing plan.  Offers can be taken up, volumes can be counted, and
  bases can be placed anew.  None of it fails but in a way that is excused, and no job lacks a base
  for a new trip.
Main exports: Work.Ready.commit, Fill.Ready, Fill.Ready.insertions, Work.Ready.placeAll
-/
import Haulage.Proofs.Evaluations
import Haulage.Proofs.Fixpoint

namespace Haulage

variable {α : Type} [Quantity α]

open Attempt Plan Problem

/-! ### Volumes -/

section

variable {p : Problem α} {plan : Plan α} {volumes next : Volumes α} {w : Work α}

omit [Quantity α] in
theorem Volumes.Tracks.of_clear (tracks : volumes.Tracks p)
    (same : next.clear = volumes.clear) : next.Tracks p := by
  intro location site
  rw [isSome_tracked?_of_clear same]
  exact tracks location site

omit [Quantity α] in
theorem Volumes.tracks_ofSites (p : Problem α) : (ofSites p.sites).Tracks p :=
  (follows_ofSites p).sites

omit [Quantity α] in
theorem Volumes.Tracks.clear (tracks : volumes.Tracks p) : volumes.clear.Tracks p :=
  tracks.of_clear (clear_clear volumes)

/-- Where no base lies elsewhere than at a site, the volumes can be counted. -/
theorem Volumes.Tracks.rebuild (tracks : volumes.Tracks p) (sited : plan.pool.Sited p)
    (agrees : ∀ r, plan.Agrees p r) :
    Ends (rebuild plan) (fun _ counted => counted.Tracks p) (fun _ _ => False) volumes := by
  obtain ⟨counted, done, same⟩ : ∃ counted, Volumes.rebuild plan volumes = .ok () counted ∧
      counted.clear = volumes.clear :=
    Volumes.rebuild_answers agrees fun _ _ b location _ _ lies => tracks location
      (sited b location lies)
  rw [Ends, done]
  exact tracks.of_clear same

end

/-! ### Taking up offers -/

section

variable {p : Problem α} {settings : Settings α} {provider : LocationProvider α} {bases r : Nat}
  {plan : Plan α} {volumes : Volumes α} {w : Work α} {q : Proposal} {job b location : Nat}
  {route : Route} {duration : Duration} {before after : List Stop}

/-- Changes that can be made, which leave all routes but one as they are and the plan in range. -/
structure Proposal.Makes (p : Problem α) (bases : Nat) (plan : Plan α) (q : Proposal) : Prop where
  checks : q.check plan = .ok ()
  changes : Ends (makeChanges q.changes)
    (fun _ next => ChangesAt q.route plan next ∧ next.InRange p bases) (fun _ _ => False) plan

omit [Quantity α] in
theorem checkChanges_insert {position known : Nat} {stop : Stop} {rest : List Change}
    (found : plan.routes[r]? = some route) (inside : position ≤ route.stops.length + known)
    (available : Proposal.isAvailable plan stop = true) :
    Proposal.checkChanges plan known (.insert r position stop :: rest) =
      Proposal.checkChanges plan (known + 1) rest := by
  have within : ¬ route.length + known < position := Nat.not_lt_of_le inside
  rw [Proposal.checkChanges, Plan.route_eq_ok.mpr found]
  show (if route.length + known < position then _ else _) = _
  rw [if_neg within, if_pos available]

omit [Quantity α] in
/-- A free base is put into a route, and then at a site. -/
theorem Plan.InRange.closes (inRange : plan.InRange p bases)
    (visits : plan.Visits r (before ++ after)) (free : plan.pool.isFree b = true)
    (site : location ∈ p.unloadLocations) :
    Ends (makeChanges [.insert r before.length (.base b), .place b location duration])
      (fun _ next => ChangesAt r plan next ∧ next.InRange p bases) (fun _ _ => False) plan := by
  apply ends_insertBase visits free
  intro next closed inserted put
  have conserved := Holding.insertStop inRange.conserved inserted
  have taken := Holding.taken_of_visits conserved (visits.insertStop inserted) (b := b) (by simp)
  exact ⟨(closes_of_insertStop inRange.conserved visits inserted put).changes,
    (inRange.insertStop inserted).placeBase taken site put⟩

omit [Quantity α] in
/-- A job that waits is put into a route. -/
theorem Plan.InRange.serves {rest : List Change} (inRange : plan.InRange p bases)
    (visits : plan.Visits r (before ++ after)) (waits : job ∈ plan.unassigned)
    (later : ∀ next, next.InRange p bases → next.Visits r (before ++ .destination job :: after) →
      next.pool = plan.pool → Ends (makeChanges rest)
        (fun _ last => ChangesAt r next last ∧ last.InRange p bases) (fun _ _ => False) next) :
    Ends (makeChanges (.insert r before.length (.destination job) :: rest))
      (fun _ last => ChangesAt r plan last ∧ last.InRange p bases) (fun _ _ => False) plan := by
  obtain ⟨vehicle, there⟩ := visits
  obtain ⟨route, found, _, whole⟩ := itineraries_eq_some.mp there
  have inside : before.length ≤ route.stops.length := by
    rw [whole, List.length_append]
    omega
  obtain ⟨next, inserted⟩ : ∃ next, plan.insertStop r before.length (.destination job) = .ok next :=
    ⟨_, insertStop_destination.mpr ⟨route, found, inside, waits, rfl⟩⟩
  have pool : next.pool = plan.pool := by
    obtain ⟨_, _, _, _, rfl⟩ := insertStop_destination.mp inserted
    rfl
  have kept := inRange.insertStop inserted
  apply ends_makeChanges_insert inserted
  apply (later next kept (Visits.insertStop ⟨vehicle, there⟩ inserted) pool).mono
  · rintro _ last ⟨changes, kept⟩
    exact ⟨(ChangesAt.insertStop inserted).trans changes, kept⟩
  · exact fun _ _ => id

/-- An offer for a job that waits can be carried out. -/
theorem Serves.checks (waits : job ∈ plan.unassigned)
    (serves : Serves p plan volumes provider job q) : q.check plan = .ok () := by
  have available : Proposal.isAvailable plan (.destination job) = true :=
    List.contains_iff_mem.mpr waits
  rcases serves with ⟨route, v, d, found, _, _, _, offer⟩
  rcases offer with ⟨before, after, joins⟩ | ⟨b, location, duration, opens⟩
  · rw [Proposal.check, joins.changes_eq, checkChanges_insert found _ available]
    · rfl
    · rw [joins.stops_eq, List.length_append]
      omega
  · have closes : Proposal.isAvailable plan (.base b) = true :=
      BasePool.isFree_of_lowestFree? opens.lowest
    rw [Proposal.check, opens.changes_eq, checkChanges_insert found (Nat.le_add_right _ _) available,
      checkChanges_insert found (Nat.le_refl _) closes]
    rfl

/-- A job that waits may join a trip, or open one. -/
theorem Serves.makes (inRange : plan.InRange p bases) (waits : job ∈ plan.unassigned)
    (sites : ∀ location, provider.Offers location → location ∈ p.unloadLocations)
    (serves : Serves p plan volumes provider job q) : q.Makes p bases plan := by
  refine ⟨serves.checks waits, ?_⟩
  rcases serves with ⟨route, v, d, found, _, _, _, offer⟩
  rcases offer with ⟨before, after, joins⟩ | ⟨b, location, duration, opens⟩
  · rw [joins.changes_eq]
    apply inRange.serves (joins.visits found) waits
    intro next kept _ _
    exact ⟨.refl q.route next, kept⟩
  · have visits : plan.Visits q.route (route.stops ++ []) := by
      rw [List.append_nil]
      exact visits_of_route found
    rw [opens.changes_eq]
    apply inRange.serves visits waits
    intro next kept visitsNow pool
    have split : route.stops ++ [Stop.destination job] = route.stops ++ [.destination job] ++ [] :=
      (List.append_nil _).symm
    have position : route.stops.length + 1 = (route.stops ++ [Stop.destination job]).length := by
      simp
    have free := BasePool.isFree_of_lowestFree? opens.lowest
    rw [split] at visitsNow
    rw [position]
    exact kept.closes visitsNow (pool ▸ free) (sites location opens.offered)

theorem Serves.job?_eq (serves : Serves p plan volumes provider job q) : q.job? = some job := by
  obtain ⟨_, _, _, _, _, _, _, ⟨_, _, joins⟩ | ⟨_, _, _, opens⟩⟩ := serves
  · rw [Proposal.job?, joins.changes_eq]
    rfl
  · rw [Proposal.job?, opens.changes_eq]
    rfl

/-- A base that is free may split a trip. -/
theorem SplitsTrip.makes {load : Load α} (inRange : plan.InRange p bases)
    (sites : ∀ location, provider.Offers location → location ∈ p.unloadLocations)
    (found : plan.routes[q.route]? = some route) (free : plan.pool.isFree b = true)
    (divides : SplitsTrip plan volumes provider route b job location duration before after load q) :
    q.Makes p bases plan := by
  have visits := divides.visits found
  constructor
  · have closes : Proposal.isAvailable plan (.base b) = true := free
    rw [Proposal.check, divides.changes_eq, checkChanges_insert found _ closes]
    · rfl
    · rw [divides.stops_eq, List.length_append, List.length_cons]
      omega
  · rw [divides.changes_behind]
    exact inRange.closes visits free (sites location divides.offered)

/-- Taking up a proposal whose changes can be made. -/
theorem Work.Ready.commit (linked : p.Linked) (ready : w.Ready p bases)
    (known : q.route < p.vehicles.size) (makes : q.Makes p bases w.plan)
    (serves : ∀ job, q.job? = some job → job < p.destinations.size)
    (inTrips : Ends (Fill.commit p q)
      (fun _ next => next.plan.AllInTrips True p.destinations.size bases)
      (fun _ next => next.plan.AllInTrips True p.destinations.size bases) w) :
    Ends (Fill.commit p q) (fun _ next => next.Ready p bases) (fun e _ => p.Excuses e) w := by
  have commits : Ends (Fill.commit p q) (fun _ next => next.plan.InRange p bases ∧
      (∀ r, next.plan.Agrees p r) ∧ next.volumes.Tracks p) (fun e _ => p.Excuses e) w := by
    apply Work.commit_ends
    · intro e failed
      cases makes.checks.symm.trans failed
    · apply makes.changes.mono
      · rintro _ plan ⟨changes, inRange⟩
        have refreshes := inRange.refreshRoute linked known
        refine ⟨refreshes.fails, fun fresh done => ?_⟩
        have kept := refreshes.answers fresh done
        have agrees := agrees_refreshRoute ready.standing.agrees changes done
        obtain ⟨route, found⟩ := kept.exists_route known
        obtain ⟨counted, counts, same⟩ := Work.recount_answers (w := { w with plan := fresh })
          agrees (fun b location lies => ready.tracks location (kept.sited b location lies)) serves
          ⟨route.stops, visits_of_route found⟩
        have counts : Work.recount p q w.volumes fresh { w with plan := fresh } =
          .ok () ⟨fresh, counted⟩ := counts
        rw [Ends, counts]
        exact ⟨kept, agrees, ready.tracks.of_clear same⟩
      · exact fun _ _ impossible => impossible.elim
  apply (commits.and inTrips).mono
  · rintro _ next ⟨⟨inRange, agrees, tracks⟩, all⟩
    exact ⟨⟨inRange, all.routes, agrees⟩, tracks⟩
  · rintro e _ ⟨excused, _⟩
    exact excused

/-- The offer for a job that waits is taken up. -/
theorem Work.Ready.commit_serves (linked : p.Linked) (reliable : settings.Reliable p)
    (ready : w.Ready p bases) (waits : job ∈ w.plan.unassigned)
    (serves : Serves p w.plan w.volumes settings.provider job q) :
    Ends (Fill.commit p q) (fun _ next => next.Ready p bases) (fun e _ => p.Excuses e) w := by
  have inRange := ready.standing.inRange
  have known : q.route < p.vehicles.size := by
    obtain ⟨route, _, _, found, _⟩ := serves
    exact (inRange.vehicle_eq found).2
  apply ready.commit linked known (serves.makes inRange waits reliable.sites)
  · intro first asked
    rw [serves.job?_eq] at asked
    cases asked
    exact ready.standing.conserved.unassigned_lt waits
  · exact commit_serves_inTrips ready.standing.allInTrips serves

/-- The place that was found for a base is taken up. -/
theorem Work.Ready.commit_splits {load : Load α} (linked : p.Linked)
    (reliable : settings.Reliable p) (ready : w.Ready p bases)
    (lowest : w.plan.pool.lowestFree? = some b) (found : w.plan.routes[q.route]? = some route)
    (divides : SplitsTrip w.plan w.volumes settings.provider route b job location duration before
      after load q) :
    Ends (Fill.commit p q) (fun _ next => next.Ready p bases) (fun e _ => p.Excuses e) w := by
  have inRange := ready.standing.inRange
  have free := BasePool.isFree_of_lowestFree? lowest
  apply ready.commit linked (inRange.vehicle_eq found).2
    (divides.makes inRange reliable.sites found free)
  · intro first asked
    rw [Proposal.job?, divides.changes_eq] at asked
    cases asked
  · exact commit_splits_inTrips trivial ready.standing.allInTrips lowest found divides

end

/-! ### Passes -/

/-- A pass under way on a standing plan, which opens trips where it has to. -/
structure Fill.Ready (p : Problem α) (bases : Nat) (f : Fill α) : Prop where
  work : f.work.Ready p bases
  opens : f.allowsNewTrips = true

namespace Fill.Ready

variable {p : Problem α} {settings : Settings α} {bases : Nat} {f : Fill α} {plan : Plan α}

theorem start (standing : plan.Standing p bases) : (Fill.start p plan).Ready p bases :=
  ⟨⟨standing, Volumes.tracks_ofSites p⟩, rfl⟩

/-- A job takes its turn, and new trips are not switched off. -/
theorem insertJob (linked : p.Linked) (reliable : settings.Reliable p)
    (most : p.destinations.size ≤ bases) (ready : f.Ready p bases) (job : Nat) :
    Ends (Fill.insertJob p settings job) (fun _ g => g.Ready p bases) (fun e _ => p.Excuses e)
      f := by
  simp only [Fill.insertJob, ends_bind, ends_get]
  split
  · rename_i asked
    have waits : job ∈ f.work.plan.unassigned := List.contains_iff_mem.mp asked
    have known := ready.work.standing.conserved.unassigned_lt waits
    have marks := Room.yields_markFullRoutes ready.work known
    simp only [ends_bind, ends_get, ends_ofResult, ends_set, ends_modify]
    refine ⟨fun marked done => ?_, marks.fails⟩
    obtain ⟨ledger, rfl, same⟩ := marks.answers marked done
    have readyNow := ready.work.marks same
    have chooses := yields_bestOffer linked reliable readyNow most waits f.allowsNewTrips
      settings.parameters.threads
    refine ⟨fun choice chosen => ?_, chooses.fails⟩
    have enough := chooses.answers choice chosen
    have opens : (f.allowsNewTrips && !choice.poolExhausted) = true := by
      rw [ready.opens, enough]
      rfl
    cases best : choice.best with
    | none => exact ⟨readyNow, opens⟩
    | some offer =>
        simp only [ends_bind, onWork, ends_within, ends_modify]
        have serves := bestOffer_serves chosen best
        apply (readyNow.commit_serves linked reliable waits serves).mono
        · exact fun _ next kept => ⟨kept, opens⟩
        · exact fun _ _ => id
  · exact ready

/-- A pass begins. -/
theorem prepare (linked : p.Linked) (ready : f.Ready p bases) :
    Ends (Fill.prepare p) (fun _ g => g.Ready p bases) (fun e _ => p.Excuses e) f := by
  obtain ⟨pooled, pool, standing⟩ := ready.work.standing.refreshBases
  simp only [Fill.prepare, onWork, Work.onVolumes, ends_bind, ends_updatePlan, ends_get,
    ends_within]
  constructor
  · intro other again
    cases pool.symm.trans again
    have refreshes := standing.refreshRoutes linked
    refine ⟨fun fresh done => ?_, refreshes.fails⟩
    have kept := refreshes.answers fresh done
    apply (ready.work.tracks.rebuild kept.inRange.sited kept.agrees).mono
    · exact fun _ counted tracks => ⟨⟨kept, tracks⟩, ready.opens⟩
    · exact fun _ _ impossible => impossible.elim
  · intro e failed
    cases pool.symm.trans failed

theorem insertions (linked : p.Linked) (reliable : settings.Reliable p)
    (most : p.destinations.size ≤ bases) (ready : f.Ready p bases) (given : List Nat) :
    Ends (Fill.insertions p settings given) (fun _ g => g.Ready p bases) (fun e _ => p.Excuses e)
      f := by
  simp only [Fill.insertions, ends_bind]
  apply (ready.prepare linked).mono
  · intro _ g begun
    apply Ends.forM (fun g : Fill α => g.Ready p bases) _ begun
    intro job _ g kept
    exact kept.insertJob linked reliable most job
  · exact fun _ _ => id

end Fill.Ready

/-! ### PlacedUpTo bases anew -/

section

variable {p : Problem α} {settings : Settings α} {bases r b : Nat} {w : Work α}
  {s : PlacementState α} {placed rest : List Stop} {trip : List Nat} {e : Failure}

/-- A route that has a visit for each stop. -/
def Plan.Timed (r : Nat) (plan : Plan α) : Prop :=
  ∀ route, plan.routes[r]? = some route → route.visits.length = route.stops.length

theorem timed_refreshRoute {plan next : Plan α} (done : plan.refreshRoute p r = .ok next) :
    next.Timed r := by
  obtain ⟨_, fresh, _, found, rescheduled, _, rfl⟩ := refreshRoute_eq_ok done
  intro route again
  have here := (routes_setRoute_self found).symm.trans again
  cases here
  exact Route.length_visits rescheduled

/-- How far the placement on a route has come, with the trips before all placed. -/
structure PlacedUpTo (p : Problem α) (bases r : Nat) (placed : List Stop) (w : Work α) : Prop where
  ready : w.Ready p bases
  timed : w.plan.Timed r
  tail : openJobs placed = []

/-- The trip that a base closes serves a job. -/
theorem PlacedUpTo.trip_ne_nil (placing : PlacedUpTo p bases r placed w)
    (visits : w.plan.Visits r (placed ++ (trip.map .destination ++ .base b :: rest))) :
    trip ≠ [] := by
  apply (placing.ready.standing.routes r _ visits).serves ⟨trip, b⟩
  rw [closedTrips_append, placing.tail, tripsOf_lead]
  exact List.mem_append_right _ List.mem_cons_self

/-- At a base, a location is sought between places that the problem has. -/
theorem PlacedUpTo.yields_placementQuery (linked : p.Linked) (placing : PlacedUpTo p bases r placed w)
    (visiting : Visiting p w.plan r s placed trip (.base b :: rest)) :
    p.Yields (LocationQuery.InRange p) (Work.placementQuery p w.plan r s) := by
  have inRange := placing.ready.standing.inRange
  have serves := List.length_pos_iff.mpr (placing.trip_ne_nil visiting.visits)
  rcases visiting.visits with ⟨vehicle, there⟩
  obtain ⟨route, found, _, whole⟩ := itineraries_eq_some.mp there
  have all := inRange.hasStops linked found
  have long : s.tripStart + s.passed < route.stops.length := by
    rw [whole, visiting.start_eq, visiting.passed_eq]
    simp
  unfold Work.placementQuery
  rw [Plan.route_eq_ok.mpr found]
  apply (yields_vehicle (inRange.drives found)).bind
  intro v _ known
  obtain ⟨i, position⟩ : ∃ i, s.tripStart + s.passed = i + 1 := by
    refine ⟨s.tripStart + s.passed - 1, ?_⟩
    rw [visiting.passed_eq]
    omega
  have inside : i < route.stops.length := by omega
  simp only [position]
  rw [List.getElem?_eq_getElem inside]
  apply (yields_stopLocation linked (all _ (List.getElem_mem inside))).bind
  intro previous _ leaves
  split
  · rename_i stop later
    apply (yields_stopLocation linked (all stop (List.mem_of_getElem? later))).bind
    intro next _ arrives
    exact .ok ⟨known, leaves, arrives⟩
  · exact .ok ⟨known, leaves, linked.endLocation known⟩

/-- A base is put at a site that was chosen for it. -/
theorem PlacedUpTo.yields_placeAt {query : LocationQuery α} {location : Nat} (linked : p.Linked)
    (reliable : settings.Reliable p) (placing : PlacedUpTo p bases r placed w)
    (visiting : Visiting p w.plan r s placed trip (.base b :: rest)) (asks : query.InRange p)
    (site : location ∈ p.unloadLocations) :
    p.Yields (fun _ => True)
      (Work.placeAt p settings w.plan r b location query (s.tripStart + s.passed)) := by
  have inRange := placing.ready.standing.inRange
  have visits := visiting.visits
  rcases visits with ⟨vehicle, there⟩
  obtain ⟨route, found, _, whole⟩ := itineraries_eq_some.mp there
  have inside : s.tripStart + s.passed - 1 < route.visits.length := by
    rw [placing.timed route found, whole, visiting.start_eq, visiting.passed_eq]
    simp
    omega
  have member : .base b ∈ placed ++ (trip.map Stop.destination ++ .base b :: rest) := by simp
  obtain ⟨base, here, _⟩ := inRange.hasStop linked visiting.visits member
  have known : b < w.plan.pool.size := by
    by_contra outside
    rw [BasePool.base, List.getElem?_eq_none (Nat.le_of_not_lt outside)] at here
    cases here
  have arrives := yields_arrival linked asks.vehicle asks.previous
    (hasPlace_some (linked.sites location site))
  unfold Work.placeAt
  rw [Plan.route_eq_ok.mpr found]
  show p.Yields _ (route.visit (s.tripStart + s.passed - 1) >>= _)
  rw [Route.visit, List.getElem?_eq_getElem inside]
  apply (arrives _).bind
  intro arrival _ _
  apply (reliable.times _ asks.vehicle location site arrival).bind
  intro duration _ _
  exact .of_answer (placeBase_eq_ok.mpr ⟨known, rfl⟩) trivial

/-- A step of a placement fails at worst in a way that is excused. -/
theorem PlacedUpTo.halts (linked : p.Linked) (reliable : settings.Reliable p)
    (known : r < p.vehicles.size) (placing : PlacedUpTo p bases r placed w)
    (visiting : Visiting p w.plan r s placed trip rest)
    (halts : Work.Halts p settings r s w rest e) : p.Excuses e := by
  have inRange := placing.ready.standing.inRange
  have all : ∀ stop ∈ rest, p.HasStop w.plan.pool stop := fun stop member =>
    inRange.hasStop linked visiting.visits
      (List.mem_append_right _ (List.mem_append_right _ member))
  have chooses (query : LocationQuery α) (asks : query.InRange p) :=
    reliable.yields_cheapestLoadable linked placing.ready.tracks asks s.load
  have removes {b : Nat} {later : List Stop} (next : rest = .base b :: later) :
      ∃ jobs plan, Work.removeStops w.plan r s.tripStart (s.passed + 1) = .ok (jobs, plan) ∧
        plan.InRange p bases := by
    apply inRange.removeStops visiting.visits
    rw [next, visiting.start_eq, visiting.passed_eq]
    simp
  cases halts with
  | serving failed => exact (yields_destination linked (all _ List.mem_cons_self)).fails _ failed
  | asking failed => exact (placing.yields_placementQuery linked visiting).fails _ failed
  | choosing asked failed =>
      have asks := (placing.yields_placementQuery linked visiting).answers _ asked
      exact (chooses _ asks).fails _ failed
  | putting asked choice failed =>
      have asks := (placing.yields_placementQuery linked visiting).answers _ asked
      have site := (chooses _ asks).answers _ choice _ rfl
      exact (placing.yields_placeAt linked reliable visiting asks site).fails _ failed
  | removing failed =>
      obtain ⟨_, _, removed, _⟩ := removes rfl
      cases removed.symm.trans failed
  | closing removed failed =>
      obtain ⟨_, _, again, kept⟩ := removes rfl
      cases again.symm.trans removed
      exact (kept.refreshRoute linked known).fails _ failed

theorem PlacedUpTo.places {location : Nat} {duration : Duration} {next : Work α} (linked : p.Linked)
    (known : r < p.vehicles.size) (placing : PlacedUpTo p bases r placed w)
    (site : location ∈ p.unloadLocations)
    (places : Places p settings r placed trip b rest location duration w next) :
    PlacedUpTo p bases r (placed ++ (trip.map .destination ++ [.base b])) next := by
  have standing := placing.ready.standing
  have conserved := standing.conserved
  have all := places.inTrips standing.allInTrips
  have agrees := places.agrees conserved standing.agrees
  rcases places.plan_eq with ⟨plan, put, refreshed⟩
  have taken := Holding.taken_of_visits conserved places.visits (b := b) (by simp)
  have inRange := standing.inRange.placeBase taken site put
  constructor
  · exact ⟨⟨(inRange.refreshRoute linked known).answers _ refreshed, all.routes, agrees⟩,
      placing.ready.tracks.of_clear (Volumes.clear_add places.volumes_eq)⟩
  · exact timed_refreshRoute refreshed
  · rw [openJobs_append, tripsOf_lead]
    rfl

theorem PlacedUpTo.drops {next : Work α} (placing : PlacedUpTo p bases r placed w)
    (drops : Drops p r placed trip b rest w next) : PlacedUpTo p bases r placed next := by
  have standing := placing.ready.standing
  have conserved := standing.conserved
  have all := drops.inTrips placing.tail standing.allInTrips
  have agrees := drops.agrees conserved standing.agrees
  rcases drops.visits with ⟨vehicle, there⟩
  have changed := drops.itineraries_eq there
  rcases drops.plan_eq with ⟨route, plan, _, _, handed, refreshed⟩
  have sited : next.plan.pool.Sited p := by
    rw [(refreshRoute_keeps refreshed).2.1]
    exact lies_handBackAll handed standing.inRange.sited
  constructor
  · exact ⟨⟨standing.inRange.changed there changed all.conserved sited, all.routes, agrees⟩,
      drops.volumes_eq ▸ placing.ready.tracks⟩
  · exact timed_refreshRoute refreshed
  · exact placing.tail

/-- The visit of a route, which places its bases anew. -/
theorem Work.Ready.placeRoute (linked : p.Linked) (reliable : settings.Reliable p)
    (known : r < p.vehicles.size) (ready : w.Ready p bases) :
    Ends (Work.placeRoute p settings r) (fun _ next => next.Ready p bases) (fun e _ => p.Excuses e)
      w := by
  have repairs := ready.standing.repairRoute linked known
  apply Work.placeRoute_ends
  · exact repairs.fails
  · intro plan stops repaired found
    have standing := repairs.answers plan repaired
    have begins : PlacedUpTo p bases r [] { w with plan := plan } := by
      refine ⟨⟨standing, ready.tracks⟩, ?_, rfl⟩
      simp only [Plan.repairRoute, bind_eq_ok] at repaired
      rcases repaired with ⟨_, _, refreshed⟩
      exact timed_refreshRoute refreshed
    have visits := Work.placeBases_ends
      (fun placed _ _ w => PlacedUpTo p bases r placed w) (E := fun e _ => p.Excuses e)
      (fun _ _ _ _ _ kept => kept)
      (fun _ _ _ _ _ _ location _ kept places =>
        kept.places linked known (reliable.sites location places.offered) places)
      (fun _ _ _ _ _ _ kept drops => kept.drops drops)
      (fun _ _ _ _ _ _ kept visiting halts => kept.halts linked reliable known visiting halts)
      (fun _ _ b _ _ _ location _ _ kept visits offered put failed => ?_)
      begins (Work.visiting_start found)
    · apply visits.mono
      · rintro _ next ⟨_, _, kept, _⟩
        exact kept.ready
      · exact fun _ _ => id
    · have inRange := kept.ready.standing.inRange
      have taken := Holding.taken_of_visits inRange.conserved visits (b := b) (by simp)
      have site := reliable.sites location offered
      exact ((inRange.placeBase taken site put).refreshRoute linked known).fails _ failed

/-- All bases are placed anew. -/
theorem Work.Ready.placeAll (linked : p.Linked) (reliable : settings.Reliable p)
    (ready : w.Ready p bases) :
    Ends (Work.placeAll p settings) (fun _ next => next.Ready p bases) (fun e _ => p.Excuses e)
      w := by
  simp only [Work.placeAll, ends_bind, ends_modify, ends_get]
  have visits (visited : List Nat) (r : Nat) (rest : List Nat) (now : Work α)
      (split : w.plan.routeIds = visited ++ r :: rest) (kept : now.Ready p bases) :
      Ends (Work.placeRoute p settings r) (fun _ next => next.Ready p bases)
        (fun e _ => p.Excuses e) now := by
    apply kept.placeRoute linked reliable
    rw [← ready.standing.inRange.length_routes]
    apply List.mem_range.mp
    show r ∈ w.plan.routeIds
    rw [split]
    exact List.mem_append_right _ List.mem_cons_self
  exact Work.placeRoutes_ends (fun _ now => now.Ready p bases) visits
    ⟨ready.standing, ready.tracks.clear⟩

end

end Haulage

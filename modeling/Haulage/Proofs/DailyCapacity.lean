/-
Module: Haulage.Proofs.DailyCapacity
Purpose: No site takes more than its daily capacity over a whole history.  The placement counts the
  volumes anew, base by base; a removal only takes away.
Main exports: Settings.OffersSites, Work.Placing, Plan.WithinDailyCapacities,
  reach_withinDailyCapacities
-/
import Haulage.Proofs.Removal
import Haulage.Proofs.Sound

namespace Haulage

open Attempt Plan

/-- Only unload sites are offered.  Offers and times are answers or faults, never refusals. -/
structure Settings.OffersSites {α : Type} (p : Problem α) (settings : Settings α) : Prop where
  offers : ∀ query, NeverRefuses (settings.provider.offers query)
  times : ∀ v location t, NeverRefuses (settings.serviceTimes v location t)
  sites : ∀ query offered, settings.provider.offers query = .ok offered →
    ∀ location ∈ offered, location ∈ p.unloadLocations

theorem Settings.OffersSites.dependable {α : Type} {p : Problem α} {settings : Settings α}
    {volumes : Volumes α} (offersSites : settings.OffersSites p) (follows : volumes.Follows p) :
    Dependable settings volumes :=
  ⟨offersSites.offers, offersSites.times, fun query offered offers location among =>
    follows.sites location (offersSites.sites query offered offers location among)⟩

theorem offersSites_forProblem {α : Type} [Quantity α] (p : Problem α)
    (parameters : Parameters α) : (Settings.forProblem p parameters).OffersSites p := by
  refine ⟨fun _ => NeverRefuses.ok _, fun _ _ _ => NeverRefuses.ok _, ?_⟩
  intro query offered offers location among
  cases offers
  exact among

variable {p : Problem Rat} {bases : Nat}

/-! ### Placement -/

/-- A placement under way, with what the trips that were placed unload. -/
structure Work.Placing (p : Problem Rat) (bases : Nat) (routes : List Nat)
    (loads : List (Nat × Load Rat)) (w : Work Rat) : Prop where
  conserved : Conserved p.destinations.size bases w.plan
  agrees : ∀ r, w.plan.Agrees p r
  follows : w.volumes.Follows p
  routes_eq : w.plan.routeIds = routes
  takes : p.Takes loads
  covers : w.volumes.Covers loads

namespace Work

variable {w next : Work Rat} {settings : Settings Rat} {routes visited : List Nat} {r b : Nat}
  {placed rest : List Stop} {trip : List Nat}

/-- What the routes visited before and the trips placed on this one unload. -/
def unloaded (p : Problem Rat) (visited : List Nat) (placed : List Stop) (w : Work Rat) :
    List (Nat × Load Rat) :=
  unloadsOf p w.plan.pool (w.plan.tripsOn visited ++ closedTrips placed)

/-- A change that leaves the bases of the trips placed so far where they are. -/
theorem unloaded_eq (placed : List Stop) (changes : ChangesAt r w.plan next.plan)
    (absent : r ∉ visited)
    (locations : ∀ c, .base c ∈ placed →
      next.plan.pool.locationOf c = w.plan.pool.locationOf c) :
    next.unloaded p visited placed = w.unloaded p visited placed := by
  rw [unloaded, unloaded, unloadsOf_append, unloadsOf_append, changes.unloadsOn_eq absent]
  congr 1
  exact unloadsOf_congr fun t member => locations _ (stops_of_mem_closedTrips member).1

/-- A base behind the trips placed so far is none of theirs. -/
theorem base_not_placed {plan : Plan Rat} {jobs : Nat} (conserved : Conserved jobs bases plan)
    (visits : plan.Visits r (placed ++ (trip.map .destination ++ .base b :: rest))) :
    .base b ∉ placed := by
  intro member
  have once := (conserved.once_of_visits visits (List.mem_append_left _ member)).1
  have before := List.count_pos_iff.mpr member
  simp only [List.count_append, List.count_cons_self] at once
  omega

/-- A trip that is placed unloads its demand at its location. -/
theorem unloaded_places {location : Nat} {duration : Duration} {jobs : Nat} (absent : r ∉ visited)
    (tail : openJobs placed = []) (conserved : Conserved jobs bases w.plan)
    (places : Places p settings r placed trip b rest location duration w next) :
    next.unloaded p visited (placed ++ (trip.map .destination ++ [.base b])) =
      w.unloaded p visited placed ++ [(location, p.demandOf trip)] := by
  have others := base_not_placed conserved places.visits
  have same := unloaded_eq (p := p) placed (places.changesAt conserved) absent fun c member =>
    places.locationOf_of_ne fun same : b = c => others (same ▸ member)
  -- The trip that the base closes comes behind those placed before.
  have closed : closedTrips (placed ++ (trip.map .destination ++ [.base b])) =
      closedTrips placed ++ [⟨trip, b⟩] := by
    rw [closedTrips_append, tail, tripsOf_lead]
    rfl
  have here : unloadOf p next.plan.pool ⟨trip, b⟩ = some (location, p.demandOf trip) := by
    rw [unloadOf, places.locationOf_self]
    rfl
  rw [← same, unloaded, closed, ← List.append_assoc, unloadsOf_append, unloadsOf_cons, here]
  rfl

/-- A trip that is taken out was not unloaded yet. -/
theorem unloaded_drops {jobs : Nat} (absent : r ∉ visited) (conserved : Conserved jobs bases w.plan)
    (drops : Drops p r placed trip b rest w next) :
    next.unloaded p visited placed = w.unloaded p visited placed :=
  unloaded_eq placed (drops.changesAt conserved) absent fun _ member =>
    drops.locationOf_eq conserved (List.mem_append_left rest member)

/-- What a route unloads that was visited to its end. -/
theorem unloaded_route (tail : openJobs placed = [])
    (visits : w.plan.Visits r (placed ++ trip.map .destination)) :
    w.unloaded p (visited ++ [r]) [] = w.unloaded p visited placed := by
  have closed : closedTrips (placed ++ trip.map .destination) = closedTrips placed := by
    rw [closedTrips_append, tail, tripsOf_destinations]
    exact List.append_nil _
  simp [unloaded, tripsOn, visits.stopsOn_eq, closed]

/-- What all routes unload is what the plan unloads. -/
theorem unloaded_routes (all : w.plan.routeIds = routes) :
    w.unloaded p routes [] = w.plan.unloads p := by
  rw [← all, unloaded, unloads, trips, closedTrips_nil, List.append_nil]

theorem Placing.places {location : Nat} {duration : Duration} (absent : r ∉ visited)
    (tail : openJobs placed = [])
    (placing : w.Placing p bases routes (w.unloaded p visited placed))
    (places : Places p settings r placed trip b rest location duration w next) :
    next.Placing p bases routes
      (next.unloaded p visited (placed ++ (trip.map .destination ++ [.base b]))) := by
  rw [unloaded_places absent tail placing.conserved places]
  exact ⟨places.conserves placing.conserved, places.agrees placing.conserved placing.agrees,
    (Volumes.sameLimits_add places.volumes_eq).follows placing.follows,
    (places.changesAt placing.conserved).routeIds_eq.trans placing.routes_eq,
    placing.covers.takes placing.follows placing.takes places.loadable,
    placing.covers.add places.volumes_eq⟩

theorem Placing.drops (absent : r ∉ visited)
    (placing : w.Placing p bases routes (w.unloaded p visited placed))
    (drops : Drops p r placed trip b rest w next) :
    next.Placing p bases routes (next.unloaded p visited placed) := by
  rw [unloaded_drops absent placing.conserved drops]
  exact ⟨drops.conserves placing.conserved, drops.agrees placing.conserved placing.agrees,
    drops.volumes_eq ▸ placing.follows,
    (drops.changesAt placing.conserved).routeIds_eq.trans placing.routes_eq,
    placing.takes, drops.volumes_eq ▸ placing.covers⟩

/-- A failure of what is dependable is a fault, after which nothing is promised. -/
theorem leavesSound_of_not_refused {e : Failure} (fault : ∀ reason, e ≠ .refused reason)
    (w : Work Rat) : LeavesSound p bases e w := fun reason refused => absurd refused (fault reason)

theorem placeRoute_placing (offersSites : settings.OffersSites p) {later : List Nat}
    (split : routes = visited ++ r :: later)
    (placing : w.Placing p bases routes (w.unloaded p visited [])) :
    Ends (placeRoute p settings r)
      (fun _ next => next.Placing p bases routes (next.unloaded p (visited ++ [r]) []))
      (LeavesSound p bases) w := by
  have absent : r ∉ visited := notMem_of_routeIds_eq (placing.routes_eq.trans split)
  refine placeRoute_ends (fun e failed => leavesSound_of_not_refused
    ((NeverRefuses.repairRoute p w.plan r).isFault failed) w) fun plan stops repaired visits => ?_
  -- The repair moves nothing that was placed.
  obtain ⟨_, _, _, _, changes, own, _⟩ := repairRoute_changes placing.conserved repaired
  have begins : Work.Placing p bases routes
      (Work.unloaded p visited [] { w with plan := plan }) { w with plan := plan } := by
    rw [unloaded_eq (w := w) [] changes absent (fun c member => absurd member List.not_mem_nil)]
    exact ⟨repairRoute_conserves placing.conserved repaired,
      agrees_of_changesAt placing.agrees changes own, placing.follows,
      changes.routeIds_eq.trans placing.routes_eq, placing.takes, placing.covers⟩
  refine (placeBases_ends
    (fun placed _ _ w => openJobs placed = [] ∧
      w.Placing p bases routes (w.unloaded p visited placed))
    (E := LeavesSound p bases) (fun _ _ _ _ _ kept => kept)
    (fun placed trip b rest w next location duration kept places => ⟨?_, ?_⟩)
    (fun placed trip b rest w next kept drops => ⟨kept.1, kept.2.drops absent drops⟩)
    (fun placed trip rest s w e kept _ halts => ?_)
    (fun placed trip b rest w plan location duration e _ _ _ _ failed => ?_)
    ⟨rfl, begins⟩ (visiting_start visits)).mono (fun _ next kept => ?_) fun _ _ failed => failed
  · rw [openJobs_append, tripsOf_lead]
    rfl
  · exact kept.2.places absent kept.1 places
  · exact leavesSound_of_not_refused (halts.isFault (offersSites.dependable kept.2.follows)) w
  · exact leavesSound_of_not_refused ((NeverRefuses.refreshRoute p plan r).isFault failed) _
  · rcases kept with ⟨placed, trip, ⟨tail, kept⟩, visits⟩
    exact unloaded_route tail visits ▸ kept

/-- The placement of all bases leaves a sound plan, however much was unloaded before. -/
theorem placeAll_sound (offersSites : settings.OffersSites p)
    (conserved : Conserved p.destinations.size bases w.plan) (agrees : ∀ r, w.plan.Agrees p r)
    (follows : w.volumes.Follows p) :
    Ends (placeAll p settings) (fun _ next => next.plan.Sound p bases) (LeavesSound p bases) w := by
  simp only [placeAll, ends_bind, ends_modify, ends_get]
  refine (placeRoutes_ends
    (fun visited w' => w'.Placing p bases w.plan.routeIds (w'.unloaded p visited []))
    (fun visited r later _ split placing => placeRoute_placing offersSites split placing)
    ?_).mono (fun _ next placing => ?_) fun _ _ failed => failed
  · refine ⟨conserved, agrees, Volumes.follows_clear follows, rfl, ?_, Volumes.covers_clear _⟩
    rintro _ _ _ ⟨_, member, _⟩
    cases member
  · exact ⟨placing.conserved, placing.agrees, unloaded_routes placing.routes_eq ▸ placing.takes⟩

end Work

/-! ### Removal -/

section

variable {plan next : Plan Rat}

/-- Jobs that are taken out leave less to unload. -/
theorem removeJobs_lighter (adds : p.DemandsAdd) {given : List Nat} {removed : List (Nat × Nat)}
    (done : plan.removeJobs given = .ok (removed, next)) :
    Lighter (next.unloads p) (plan.unloads p) := by
  refine removeJobs_keeps (fun q : Plan Rat => Lighter (q.unloads p) (plan.unloads p))
    (fun before after job from? lighter removed => ?_) (.refl _) done
  rcases removeJob_changes removed with ⟨_, rfl, _⟩ |
    ⟨r, vehicle, stops, _, found, member, changed, pool, changes⟩
  · exact lighter
  · have visits : before.Visits r stops := ⟨vehicle, found⟩
    have inside := (List.getElem?_eq_some_iff.mp found).1
    have visitsNow : after.Visits r (stops.erase (.destination job)) :=
      ⟨vehicle, by rw [changed, List.getElem?_set_self inside]⟩
    refine Lighter.trans ?_ lighter
    obtain ⟨front, rest, _, split, erased⟩ := List.exists_erase_eq member
    apply changes.unloads_lighter_of_own visits.mem_routeIds
    rw [visits.stopsOn_eq, visitsNow.stopsOn_eq, pool, erased, split]
    exact lighter_erase adds job front rest

/-- Repaired routes unload no more. -/
theorem repairRoutes_lighter (adds : p.DemandsAdd) {jobs : Nat} {routes : List Nat}
    (conserved : Conserved jobs bases plan) (done : routes.foldlM (repairRoute p) plan = .ok next) :
    Lighter (next.unloads p) (plan.unloads p) := by
  induction routes generalizing plan with
  | nil =>
      cases done
      exact .refl _
  | cons r routes inductionHypothesis =>
      rw [List.foldlM_cons, bind_eq_ok] at done
      rcases done with ⟨repaired, head, tail⟩
      have lighter := inductionHypothesis (repairRoute_conserves conserved head) tail
      obtain ⟨vehicle, stops, found, changed, changes, _, locations⟩ :=
        repairRoute_changes conserved head
      have visits : plan.Visits r stops := ⟨vehicle, found⟩
      have inside := (List.getElem?_eq_some_iff.mp found).1
      have visitsNow : repaired.Visits r (splitIdleBases true stops).1 :=
        ⟨vehicle, by rw [changed, List.getElem?_set_self inside]⟩
      refine lighter.trans ?_
      apply changes.unloads_lighter_of_own visits.mem_routeIds
      rw [visits.stopsOn_eq, visitsNow.stopsOn_eq,
        unloadsOf_congr fun t member => locations _ (stops_of_mem_closedTrips member).1,
        closedTrips_splitIdleBases]
      exact lighter_sublist adds List.filter_sublist

theorem ruin_sound (adds : p.DemandsAdd) {given removed : List Nat} (sound : plan.Sound p bases)
    (done : plan.ruin p given = .ok (removed, next)) : next.Sound p bases := by
  have conserved := ruin_conserves sound.conserved done
  have agrees := ruin_agrees sound.conserved sound.agrees done
  simp only [ruin, bind_eq_ok] at done
  rcases done with ⟨⟨pairs, shorter⟩, taken, last, repaired, equal⟩
  cases equal
  have fewer := removeJobs_lighter adds taken
  have lighter := repairRoutes_lighter adds (removeJobs_conserves sound.conserved taken) repaired
  exact ⟨conserved, agrees, sound.takes.mono (lighter.trans fewer)⟩

end

/-! ### Histories -/

/-- The operations of a search that goes by the unload sites. -/
def Operation.KeepsToSites {α : Type} (p : Problem α) : Operation α → Prop
  | .insertJobs settings _ | .recreate settings | .insertBase settings _ => settings.OffersSites p
  | .ruin _ => True
  | _ => False

theorem insertJobs_sound (adds : p.DemandsAdd) {settings : Settings Rat}
    (offersSites : settings.OffersSites p) (jobs : List Nat) {plan : Plan Rat}
    (sound : plan.Sound p bases) :
    Ends (Fill.insertJobs p settings jobs) (fun _ g => g.work.plan.Sound p bases)
      (fun e g => LeavesSound p bases e g.work) (Fill.start p plan) :=
  Fill.insertJobs_ends (Work.Sound p bases) (Q := fun w => w.plan.Sound p bases)
    (fun given => insertions_sound adds settings given sound)
    fun _ kept => Work.placeAll_sound offersSites kept.plan.conserved kept.plan.agrees kept.follows

/-- Every operation of a search leaves a sound plan, unless it ends with a fault. -/
theorem Operation.sound (adds : p.DemandsAdd) {operation : Operation Rat}
    (sites : operation.KeepsToSites p) {plan : Plan Rat} (sound : plan.Sound p bases) :
    Ends (operation.perform p) (fun _ after => after.Sound p bases)
      (fun e after => ∀ reason, e = .refused reason → after.Sound p bases) plan := by
  cases operation with
  | insertJobs settings jobs => exact ends_onPlan.mpr (insertJobs_sound adds sites jobs sound)
  | recreate settings =>
      exact ends_onPlan.mpr (Fill.recreate_ends (Q := fun w => w.plan.Sound p bases)
        (E := LeavesSound p bases) (fun _ _ _ => sound)
        fun jobs => insertJobs_sound adds sites jobs sound)
  | insertBase settings r =>
      refine ends_onPlan.mpr
        ((insertBase_sound adds settings r sound).mono ?_ fun _ _ failed => failed)
      intro _ _ kept
      exact kept.plan
  | ruin jobs =>
      simp only [perform, ends_edit, bind_eq_ok]
      refine ⟨fun after done => ?_, fun _ _ _ _ => sound⟩
      rcases done with ⟨⟨removed, last⟩, ruined, equal⟩
      cases equal
      exact ruin_sound adds sound ruined
  | placeAll | removeJob | clearIdleBases | resetRoute | refreshBases | refreshRoute => cases sites

theorem empty_sound {start : Plan Rat} (begins : Plan.empty p = .ok start) :
    start.Sound p (max p.destinations.size 1) := by
  refine ⟨withPool_conserves begins, agrees_empty begins, ?_⟩
  rintro location capacity _ ⟨load, member, _⟩
  obtain ⟨t, among, _⟩ := List.mem_filterMap.mp member
  obtain ⟨r, stops, visits, visited⟩ := visits_of_mem_trips among
  rw [visits_empty begins visits] at visited
  cases visited

namespace Plan

/-- The closed trips that unload at a location. -/
def tripsTo {α : Type} (plan : Plan α) (location : Nat) : List Trip :=
  plan.trips.filter fun t => plan.pool.locationOf t.base = some location

/-- Where any trip unloads, the demands of all jobs of the trips that unload there keep to the daily
capacity, if there is one. -/
def WithinDailyCapacities {α : Type} [Quantity α] (p : Problem α) (plan : Plan α) : Prop :=
  ∀ location capacity, p.dailyCapacity location = some capacity → plan.tripsTo location ≠ [] →
    (p.demandOf ((plan.tripsTo location).flatMap (·.jobs))).fits capacity = true

theorem get_demandOf_tripsTo (plan : Plan Rat) (location i : Nat) :
    (p.demandOf ((plan.tripsTo location).flatMap (·.jobs))).get i =
      loadAt (plan.unloads p) location i := by
  rw [tripsTo, unloads, Problem.get_demandOf]
  induction plan.trips with
  | nil => rfl
  | cons t trips inductionHypothesis =>
      rw [unloadsOf_cons, loadAt_append, ← inductionHypothesis, unloadOf]
      cases lies : plan.pool.locationOf t.base with
      | none => simp [lies]
      | some place =>
          by_cases same : place = location
          · simp [lies, same, Problem.get_demandOf]
          · simp [lies, same]

theorem Sound.withinDailyCapacities {plan : Plan Rat} (sound : plan.Sound p bases) :
    plan.WithinDailyCapacities p := by
  intro location capacity limit used
  rw [Load.fits_iff_get]
  intro i
  rw [get_demandOf_tripsTo]
  refine sound.takes location capacity limit ?_ i
  obtain ⟨t, member⟩ := List.exists_mem_of_ne_nil _ used
  obtain ⟨among, lies⟩ := List.mem_filter.mp member
  refine ⟨(location, p.demandOf t.jobs), List.mem_filterMap.mpr ⟨t, among, ?_⟩, rfl⟩
  rw [unloadOf, of_decide_eq_true lies]
  rfl

end Plan

/-- However passes, bases and removals follow each other from the beginning on, no site takes more
than its daily capacity, neither after an operation nor after any insertion of the next pass. -/
theorem reach_withinDailyCapacities (p : Problem Rat) (adds : p.DemandsAdd)
    {operations : List (Operation Rat)}
    (sites : ∀ operation ∈ operations, operation.KeepsToSites p) {plan : Plan Rat}
    (reached : Plan.reach p operations = .ok plan) :
    plan.WithinDailyCapacities p ∧ ∀ (settings : Settings Rat) (jobs : List Nat),
      Ends (Fill.insertions p settings jobs)
        (fun _ f => f.work.plan.WithinDailyCapacities p)
        (fun e f => ∀ reason, e = .refused reason → f.work.plan.WithinDailyCapacities p)
        (Fill.start p plan) := by
  have sound : plan.Sound p (max p.destinations.size 1) :=
    reach_keeps (Plan.Sound p _)
      (fun operation member _ => Operation.sound adds (sites operation member))
      (fun _ => empty_sound) reached
  refine ⟨sound.withinDailyCapacities, fun settings jobs => ?_⟩
  exact (insertions_sound adds settings jobs sound).mono
    (fun _ _ kept => kept.plan.withinDailyCapacities)
    fun _ _ kept reason refused => (kept reason refused).withinDailyCapacities

/-- Two trips fill the only site, also after one of them was taken back and planned anew. -/
theorem reach_withinDailyCapacities_twoJobs :
    let p : Problem Rat := { twoJobs with sites := [⟨3, some ⟨[15]⟩⟩] }
    let settings := Settings.forProblem p .standard
    let operations := [.recreate settings, .insertBase settings 0, .ruin [0], .recreate settings]
    p.DemandsAdd ∧ (∀ operation ∈ operations, operation.KeepsToSites p) ∧
      ∃ plan, Plan.reach p operations = .ok plan ∧ plan.tripsTo 3 = [⟨[1], 1⟩, ⟨[0], 0⟩] ∧
        plan.WithinDailyCapacities p := by
  intro p settings operations
  have adds : p.DemandsAdd := demandsAdd_twoJobs
  have sites : ∀ operation ∈ operations, operation.KeepsToSites p := by
    have offersSites := offersSites_forProblem p .standard
    intro operation member
    simp only [operations, List.mem_cons, List.not_mem_nil, or_false] at member
    rcases member with rfl | rfl | rfl | rfl
    · exact offersSites
    · exact offersSites
    · trivial
    · exact offersSites
  have trips : (Plan.reach p operations).map (fun plan => plan.tripsTo 3) =
      .ok [⟨[1], 1⟩, ⟨[0], 0⟩] := by decide +kernel
  cases reached : Plan.reach p operations with
  | error e =>
      rw [reached] at trips
      cases trips
  | ok plan =>
      rw [reached] at trips
      exact ⟨adds, sites, plan, rfl, Except.ok.inj trips,
        (reach_withinDailyCapacities p adds sites reached).1⟩

end Haulage

/-
Module: Haulage.Proofs.Finds
Purpose: Evaluations miss nothing.  Over exact numbers and without a bound, a route makes an offer
  wherever a closed trip has room for the job, and wherever a trip is wanted and can be opened.  A
  search that chose no offer was given none by any route.
Main exports: Survey.scanTrips_finds, Survey.openTrip_finds, Survey.Evaluates,
  Fill.bestOffer_eq_none, Room.needsBase_of_marked
-/
import Haulage.Proofs.Bounds
import Haulage.Proofs.Trips
import Haulage.Proofs.Turn

namespace Haulage

variable {α : Type} [Quantity α]

/-! ### Verdicts -/

namespace Trial

variable {p : Problem α} {plan : Plan α} {volumes : Volumes α} {t : Trial α} {route : Route}

/-- What the capacity says about a job: nothing goes behind the last base or into a trip that is
closed there without any load, and the trip has to fit the vehicle. -/
theorem capacityVerdict_eq {job : Nat} {d : Destination α}
    (stop : t.newStop = .destination job) (served : p.destination job = .ok d)
    (found : plan.routes[t.route]? = some route) :
    t.capacityVerdict p plan = if t.gap.next = .finish then .ok .breakTrip
      else if t.gap.next.isBase && decide (t.gap.position < route.length) && t.load.isEmpty then
        .ok .breakTrip
      else if (t.load + d.demand).fits (t.vehicle.tripCapacity t.gap.trip) then .ok .fulfilled
      else .ok .breakTrip := by
  simp only [capacityVerdict, stop, Plan.route_eq_ok.mpr found, served]
  rfl

/-- A job may go into a gap of a trip that has room for it, unless the trip is closed there without
any load. -/
theorem verdict_destination {job : Nat} {d : Destination α} (stop : t.newStop = .destination job)
    (served : p.destination job = .ok d) (found : plan.routes[t.route]? = some route)
    (followed : t.gap.next ≠ .finish)
    (laden : (t.gap.next.isBase && decide (t.gap.position < route.length) && t.load.isEmpty) = false)
    (fits : (t.load + d.demand).fits (t.vehicle.tripCapacity t.gap.trip) = true)
    (loadable : ∀ location, t.unloadLocation = some location →
      volumes.isLoadable location d.demand = .ok true) :
    t.verdict p plan volumes = .ok .fulfilled := by
  have capacity : t.capacityVerdict p plan = .ok .fulfilled := by
    rw [capacityVerdict_eq stop served found, if_neg followed, laden, if_neg Bool.false_ne_true,
      if_pos fits]
  have volume : t.volumeVerdict p volumes = .ok .fulfilled := by
    simp only [volumeVerdict, stop]
    cases unloads : t.unloadLocation with
    | none => rfl
    | some location =>
        rw [served]
        show (volumes.isLoadable location d.demand >>= _) = _
        rw [loadable location unloads]
        rfl
  have sequence : t.sequenceVerdict = .fulfilled := by
    rw [sequenceVerdict, stop]
    rfl
  rw [verdict, capacity, volume, sequence]
  rfl

/-- At a location that takes the load, only its neighbours decide on a base. -/
theorem verdict_base_eq {b location : Nat} {duration : Duration}
    (stop : t.newStop = .base b location duration)
    (loadable : volumes.isLoadable location t.load = .ok true) :
    t.verdict p plan volumes = .ok t.sequenceVerdict := by
  have capacity : t.capacityVerdict p plan = .ok .fulfilled := by
    rw [capacityVerdict, stop]
  have volume : t.volumeVerdict p volumes = .ok .fulfilled := by
    simp only [volumeVerdict, stop, loadable]
    rfl
  rw [verdict, capacity, volume]
  cases t.sequenceVerdict with
  | fulfilled | continueScan | breakTrip => rfl

omit [Quantity α] in
/-- A base may go behind a job, and not in front of another base. -/
theorem sequenceVerdict_behind {b location : Nat} {duration : Duration} {job : Nat}
    (stop : t.newStop = .base b location duration)
    (previous : t.gap.previous = .at (.destination job)) (next : t.gap.next.isBase = false) :
    t.sequenceVerdict = .fulfilled := by
  rw [sequenceVerdict, next, stop, previous]
  rfl

end Trial

/-! ### Places to unload -/

section

variable {p : Problem Rat} {volumes : Volumes Rat} {q : LocationQuery Rat} {load : Load Rat}

/-- Where one of the candidates takes the load, one is found. -/
theorem cheapestAmong_finds {candidates : List Nat} {best found : Option (Nat × Rat)}
    (searched : cheapestAmong p volumes q load best candidates = .ok found)
    (takes : best.isSome = true ∨
      ∃ location ∈ candidates, volumes.isLoadable location load = .ok true) :
    found.isSome = true := by
  induction candidates generalizing best with
  | nil =>
      cases searched
      rcases takes with already | ⟨_, member, _⟩
      · exact already
      · cases member
  | cons candidate rest inductionHypothesis =>
      simp only [cheapestAmong, bind_eq_ok] at searched
      rcases searched with ⟨loadable, asked, searched⟩
      cases loadable with
      | false =>
          apply inductionHypothesis searched
          rcases takes with already | ⟨location, member, here⟩
          · exact .inl already
          · rcases List.mem_cons.mp member with rfl | later
            · cases asked.symm.trans here
            · exact .inr ⟨location, later, here⟩
      | true =>
          simp only [if_true, bind_eq_ok] at searched
          rcases searched with ⟨access, _, egress, _, searched⟩
          apply inductionHypothesis searched
          left
          cases best with
          | none => rfl
          | some other =>
              split
              · rfl
              · rfl

/-- Where a location that is offered takes the load, one is chosen. -/
theorem cheapestLoadable_finds {provider : LocationProvider Rat} {offered : List Nat}
    {location : Nat} {chosen : Option Nat} (offers : provider.offers q = .ok offered)
    (among : location ∈ offered) (takes : volumes.isLoadable location load = .ok true)
    (choice : cheapestLoadable p provider volumes q load = .ok chosen) :
    chosen.isSome = true := by
  simp only [cheapestLoadable, bind_eq_ok, Except.ok.injEq] at choice
  rcases choice with ⟨again, offersAgain, best, searched, rfl⟩
  cases offers.symm.trans offersAgain
  rw [Option.isSome_map]
  exact cheapestAmong_finds searched (.inr ⟨location, among, takes⟩)

end

/-! ### Trips that are there -/

/-- Wherever stops that a base closes are cut short, there are fewer bases. -/
theorem basesIn_lt_of_shorter {before after front rest : List Stop}
    (same : before ++ after = front ++ rest)
    (begins : front = [] ∨ ∃ earlier b, front = earlier ++ [.base b])
    (shorter : before.length < front.length) : basesIn before < basesIn front := by
  rcases begins with rfl | ⟨earlier, b, rfl⟩
  · exact absurd shorter (Nat.not_lt_zero _)
  · have first : before <+: before ++ after := List.prefix_append _ _
    have second : earlier <+: before ++ after := by
      rw [same, List.append_assoc]
      exact List.prefix_append _ _
    have leads : before <+: earlier := by
      apply List.prefix_of_prefix_length_le first second
      rw [List.length_append, List.length_singleton] at shorter
      omega
    obtain ⟨more, rfl⟩ := leads
    simp only [basesIn_append, basesIn_base]
    omega

namespace Survey

section

variable {s : Survey α} {t : RouteTrial α} {route : Route} {d : Destination α} {job : Nat}
  {routeCost : α} {known : Bound α} {state : ScanState α} {gap : Gap}
  {step : ForInStep (ScanState α)}

/-- A job tried out in a gap of its trip. -/
def trialAt (s : Survey α) (t : RouteTrial α) (job : Nat) (gap : Gap) : Trial α :=
  { route := t.route, vehicle := t.vehicle, newStop := .destination job, gap := gap,
    load := s.plan.ledger.load t.route gap.trip,
    unloadLocation := s.plan.ledger.unloadLocation? t.route gap.trip }

/-- A look at a gap does not end the scan.  It loses no find, and gives up no trip but that of the
gap, where the rules are a reason to. -/
theorem lookAt_yields (looked : s.lookAt t job d routeCost known state gap = .ok step) :
    ∃ next, step = .yield next ∧ (state.best.isSome = true → next.best.isSome = true) ∧
      (next.brokenTrip = state.brokenTrip ∨ next.brokenTrip = some gap.trip ∧
        (s.trialAt t job gap).verdict s.problem s.plan s.volumes = .ok .breakTrip) := by
  simp only [lookAt] at looked
  split at looked
  · cases looked
    exact ⟨state, rfl, id, .inl rfl⟩
  · simp only [bind_eq_ok] at looked
    rcases looked with ⟨verdict, agreed, looked⟩
    cases verdict with
    | breakTrip =>
        cases looked
        exact ⟨_, rfl, id, .inr ⟨rfl, agreed⟩⟩
    | continueScan =>
        cases looked
        exact ⟨state, rfl, id, .inl rfl⟩
    | fulfilled =>
        simp only [bind_eq_ok] at looked
        rcases looked with ⟨windowCost, _, detour, _, looked⟩
        split_ifs at looked
        · cases looked
          exact ⟨_, rfl, fun _ => rfl, .inl rfl⟩
        · cases looked
          exact ⟨state, rfl, id, .inl rfl⟩

end

variable {s : Survey Rat} {t : RouteTrial Rat} {route : Route} {d : Destination Rat}
  {job : Nat} {routeCost : Rat} {state : ScanState Rat} {gap : Gap}
  {step : ForInStep (ScanState Rat)}

/-- Where all rules agree on a gap of a trip that was not given up, something is found. -/
theorem lookAt_finds (unbroken : state.brokenTrip ≠ some gap.trip)
    (agreed : (s.trialAt t job gap).verdict s.problem s.plan s.volumes = .ok .fulfilled)
    (looked : s.lookAt t job d routeCost none state gap = .ok step) :
    step.value.best.isSome = true := by
  simp only [lookAt, if_neg unbroken, bind_eq_ok] at looked
  rcases looked with ⟨verdict, again, looked⟩
  cases agreed.symm.trans again
  simp only [bind_eq_ok] at looked
  rcases looked with ⟨windowCost, _, detour, _, looked⟩
  cases best : state.best with
  | none =>
      rw [best] at looked
      cases looked
      rfl
  | some found =>
      rw [best] at looked
      dsimp only at looked
      split_ifs at looked
      · cases looked
        rfl
      · cases looked
        exact congrArg Option.isSome best

/-- Where a trip that begins behind some stops has room for a job, a scan finds something. -/
theorem scanTrips_finds {front rest : List Stop} {first : Nat} {best : Option (Offer Rat)}
    (split : route.stops = front ++ .destination first :: rest)
    (begins : front = [] ∨ ∃ earlier b, front = earlier ++ [.base b])
    (served : s.problem.destination job = .ok d) (found : s.plan.routes[t.route]? = some route)
    (fits : (s.plan.ledger.load t.route (basesIn front) + d.demand).fits
      (t.vehicle.tripCapacity (basesIn front)) = true)
    (loadable : ∀ location, s.plan.ledger.unloadLocation? t.route (basesIn front) = some location →
      s.volumes.isLoadable location d.demand = .ok true)
    (scanned : s.scanTrips t route job d routeCost none = .ok best) : best.isSome = true := by
  simp only [scanTrips, bind_eq_ok, Except.ok.injEq] at scanned
  rcases scanned with ⟨last, scanned, rfl⟩
  rw [Option.isSome_map]
  -- Before the trip begins it cannot be given up, and from its first gap on there is a find.
  refine Walk.scan_along
    (fun before state => (before.length ≤ front.length → state.brokenTrip ≠ some (basesIn front)) ∧
      (front.length < before.length → state.best.isSome = true))
    (fun state => state.best.isSome = true) ?_ ?_ ?_ scanned
  · intro before stop after gap state next parts between holds looked
    obtain ⟨_, equal, keeps, broken⟩ := lookAt_yields looked
    cases equal
    constructor
    · intro short
      rw [List.length_append, List.length_singleton] at short
      have fewer := basesIn_lt_of_shorter (parts.symm.trans split) begins short
      rcases broken with same | ⟨own, _⟩
      · rw [same]
        exact holds.1 (by omega)
      · rw [own, between.trip_eq]
        intro same
        have equal := Option.some.inj same
        omega
    · intro long
      rw [List.length_append, List.length_singleton] at long
      rcases Nat.lt_or_eq_of_le (Nat.le_of_lt_succ long) with beyond | here
      · exact keeps (holds.2 beyond)
      · -- This is the gap in front of the first job of the trip.
        obtain ⟨rfl, follows⟩ := List.append_inj (parts.symm.trans split) here.symm
        cases follows
        have next : gap.next = .at (.destination first) := between.next_eq
        have unbroken : state.brokenTrip ≠ some gap.trip := by
          rw [between.trip_eq]
          exact holds.1 (Nat.le_refl _)
        rw [← between.trip_eq] at fits loadable
        apply lookAt_finds unbroken _ looked
        apply Trial.verdict_destination rfl served found
        · rw [trialAt, next]
          intro same
          cases same
        · rw [trialAt, next]
          rfl
        · exact fits
        · exact loadable
  · intro before after gap state step parts between holds looked ends
    obtain ⟨next, rfl, keeps, _⟩ := lookAt_yields looked
    rcases ends with rfl | finished
    · apply keeps
      apply holds.2
      rw [List.append_nil] at parts
      rw [← parts, split, List.length_append, List.length_cons]
      omega
    · cases finished
  · refine ⟨fun _ => ?_, fun beyond => absurd beyond (Nat.not_lt_zero _)⟩
    intro broken
    cases broken

end Survey

/-! ### Trips that are opened -/

/-- What is asked when a location is sought for a base behind a job at the end of a route. -/
def tailQuery (v : Vehicle α) (stops : List Stop) (counts : List LocationCount)
    (d : Destination α) : LocationQuery α :=
  { vehicle := v, isLastTrip := true, trip := basesIn stops,
    fillPercent := d.demand.fillPercent (v.tripCapacity (basesIn stops)), counts := counts,
    previous := some d.location, next := v.endLocation }

namespace Survey

section

variable {s : Survey α} {t : RouteTrial α} {route : Route} {d : Destination α} {job base : Nat}
  {routeCost : α} {known : Bound α} {opened : Option (Offer α)}

/-- Before a trip is opened on a route that carries nothing at its end, a location is sought for the
demand of the job alone. -/
theorem openTrip_asks
    (idle : s.plan.ledger.load t.route (basesIn route.stops) + d.demand = d.demand)
    (done : s.openTrip t route job d base routeCost known = .ok opened) :
    ∃ chosen, cheapestLoadable s.problem s.provider s.volumes
        (tailQuery t.vehicle route.stops (locationCounts s.plan.ledger t.route) d) d.demand =
          .ok chosen ∧ (opened.isSome = true → chosen.isSome = true) := by
  simp only [openTrip, bind_eq_ok] at done
  rcases done with ⟨tail, walked, chosen, choice, done⟩
  have met := Walk.tailGap_met walked
  rw [met.trip_eq, idle, met.nextLocation_eq] at choice
  refine ⟨chosen, choice, fun opens => ?_⟩
  cases chosen with
  | none =>
      cases done
      cases opens
  | some location => rfl

end

variable {s : Survey Rat} {t : RouteTrial Rat} {route : Route} {d : Destination Rat}
  {job base : Nat} {routeCost : Rat} {opened : Option (Offer Rat)}

/-- Where the demand of a job makes a trip, and a location that is offered takes it, a trip is
opened. -/
theorem openTrip_finds {offered : List Nat} {location : Nat}
    (served : s.problem.destination job = .ok d) (found : s.plan.routes[t.route]? = some route)
    (idle : s.plan.ledger.load t.route (basesIn route.stops) + d.demand = d.demand)
    (fits : d.demand.fits (t.vehicle.tripCapacity (basesIn route.stops)) = true)
    (offers : s.provider.offers
      (tailQuery t.vehicle route.stops (locationCounts s.plan.ledger t.route) d) = .ok offered)
    (among : location ∈ offered) (takes : s.volumes.isLoadable location d.demand = .ok true)
    (done : s.openTrip t route job d base routeCost none = .ok opened) : opened.isSome = true := by
  obtain ⟨chosen, choice, _⟩ := openTrip_asks idle done
  have some := cheapestLoadable_finds offers among takes choice
  obtain ⟨place, rfl⟩ := Option.isSome_iff_exists.mp some
  obtain ⟨_, _, _, takesHere⟩ := cheapestLoadable_eq_some choice
  simp only [openTrip, bind_eq_ok] at done
  rcases done with ⟨tail, walked, again, choiceAgain, done⟩
  have met := Walk.tailGap_met walked
  rw [met.trip_eq, idle, met.nextLocation_eq] at choiceAgain
  cases choice.symm.trans choiceAgain
  simp only [bind_eq_ok] at done
  rcases done with ⟨jobVerdict, agreed, done⟩
  obtain rfl : jobVerdict = .fulfilled := by
    apply Except.ok.inj
    rw [← agreed]
    apply Trial.verdict_destination rfl served found
    · intro same
      cases same
    · have atEnd : ¬ tail.position < route.length := by
        rw [met.position_eq]
        exact Nat.lt_irrefl _
      simp [atEnd]
    · rw [met.trip_eq, idle]
      exact fits
    · intro other same
      cases same
      exact takesHere
  simp only [bind_eq_ok] at done
  rcases done with ⟨leaving, _, arrival, _, duration, _, baseVerdict, agreed, done⟩
  obtain rfl : baseVerdict = .fulfilled := by
    apply Except.ok.inj
    rw [← agreed, Trial.verdict_base_eq rfl, Trial.sequenceVerdict_behind rfl rfl rfl]
    rw [met.trip_eq, idle]
    exact takesHere
  simp only [bind_eq_ok] at done
  rcases done with ⟨_, _, _, _, _, _, _, _, done⟩
  rw [Bound.reachedBy_eq_not_admits, Bound.admits_none, if_neg (by simp)] at done
  cases done
  rfl

end Survey

/-! ### Evaluations -/

namespace Survey

/-- What the evaluation of a route comes to that takes another destination: the best offer within its
trips, or one that opens a trip where that is wanted. -/
inductive Evaluates (s : Survey α) (t : RouteTrial α) (route : Route) (job : Nat)
    (d : Destination α) (known : Bound α) : Option (Offer α) → Prop
  | within {routeCost : α} {best : Option (Offer α)}
      (scanned : s.scanTrips t route job d routeCost known = .ok best)
      (settled : best.isSome = true ∨
        (s.allowsNewTrips && s.plan.ledger.needsBase t.route) = false) :
      Evaluates s t route job d known best
  | opening {routeCost : α} {best opened : Option (Offer α)} {base : Nat}
      (scanned : s.scanTrips t route job d routeCost known = .ok best)
      (needed : s.plan.ledger.needsBase t.route = true)
      (lowest : s.plan.pool.lowestFree? = some base)
      (done : s.openTrip t route job d base routeCost ((best.map Offer.cost).or known) =
        .ok opened) : Evaluates s t route job d known (opened.or best)

theorem cheapestOnRoute_evaluates {s : Survey α} {job r : Nat} {known : Bound α} {route : Route}
    {v : Vehicle α} {d : Destination α} {answer : Option (Offer α)}
    (found : s.plan.routes[r]? = some route) (vehicle : s.problem.vehicle route.vehicle = .ok v)
    (served : s.problem.destination job = .ok d)
    (few : v.maximumDestinations.all (route.destinationCount < ·) = true)
    (done : s.cheapestOnRoute job known r = .ok answer) :
    ∃ departure, s.Evaluates ⟨r, route.vehicle, v, departure, .destination job⟩ route job d known
      answer := by
  simp only [cheapestOnRoute, cheapest, bind_eq_ok, Plan.route_eq_ok] at done
  rcases done with ⟨_, again, departure, _, _, once, _, sameVehicle, done⟩
  cases found.symm.trans again
  cases found.symm.trans once
  cases vehicle.symm.trans sameVehicle
  have within : RouteTrial.withinMaximum ⟨r, route.vehicle, v, departure, .destination job⟩ route =
      true := few
  rw [within, Bool.not_true, if_neg Bool.false_ne_true] at done
  simp only [bind_eq_ok] at done
  rcases done with ⟨_, again, routeCost, _, best, scanned, done⟩
  cases served.symm.trans again
  refine ⟨departure, ?_⟩
  split at done
  · rename_i wanted
    rw [Bool.and_eq_true] at wanted
    cases lowest : s.plan.pool.lowestFree? with
    | none =>
        rw [lowest] at done
        cases best with
        | none => cases done
        | some offer =>
            cases done
            exact .within scanned (.inl rfl)
    | some base =>
        rw [lowest] at done
        cases best with
        | none =>
            obtain ⟨opened, asked, done⟩ := bind_eq_ok.mp done
            cases opened with
            | none =>
                cases done
                exact .opening scanned wanted.2 lowest asked
            | some offer =>
                cases done
                exact .opening scanned wanted.2 lowest asked
        | some first =>
            obtain ⟨opened, asked, done⟩ := bind_eq_ok.mp done
            cases opened with
            | none =>
                cases done
                exact .opening scanned wanted.2 lowest asked
            | some offer =>
                cases done
                exact .opening scanned wanted.2 lowest asked
  · rename_i settled
    cases done
    exact .within scanned (.inr (Bool.not_eq_true _ ▸ settled))

end Survey

/-! ### Searches -/

namespace Fill

open Survey

variable {s : Survey Rat} {job r : Nat} {c choice : Choice Rat} {threads : Threads}

/-- Where there is no best offer after an answer, there was none before, and the answer brought
none. -/
theorem Choice.consider_eq_none {answer : Except Failure (Option (Offer Rat))}
    (done : c.consider answer = .ok choice) (none : choice.best = none) :
    c.best = .none ∧ FindsNothing answer := by
  unfold consider at done
  split at done
  · cases done
    exact ⟨none, .inl rfl⟩
  · rename_i offer
    cases done
    split at none
    · cases none
    · rename_i dearer
      rw [none] at dearer
      exact absurd rfl dearer
  · cases done
    exact ⟨none, .inr rfl⟩
  · cases done

theorem chooseInTurn_eq_none {routes : List Nat}
    (done : chooseInTurn s job c routes = .ok choice) (none : choice.best = none) :
    c.best = .none ∧ ∀ r ∈ routes, FindsNothing (s.cheapestOnRoute job .none r) := by
  induction routes generalizing c with
  | nil =>
      cases done
      exact ⟨none, fun r member => absurd member List.not_mem_nil⟩
  | cons r rest inductionHypothesis =>
      simp only [chooseInTurn, bind_eq_ok] at done
      rcases done with ⟨next, step, done⟩
      obtain ⟨noneNext, later⟩ := inductionHypothesis done
      obtain ⟨noneHere, nothing⟩ := Choice.consider_eq_none step noneNext
      rw [noneHere] at nothing
      refine ⟨noneHere, fun other member => ?_⟩
      rcases List.mem_cons.mp member with rfl | among
      · exact nothing
      · exact later other among

theorem considerAll_eq_none {answers : List (Except Failure (Option (Offer Rat)))}
    (done : answers.foldlM Choice.consider c = .ok choice) (none : choice.best = none) :
    ∀ answer ∈ answers, FindsNothing answer := by
  suffices all : c.best = .none ∧ ∀ answer ∈ answers, FindsNothing answer from all.2
  induction answers generalizing c with
  | nil =>
      cases done
      exact ⟨none, fun answer member => absurd member List.not_mem_nil⟩
  | cons answer rest inductionHypothesis =>
      rw [List.foldlM_cons, bind_eq_ok] at done
      rcases done with ⟨next, step, done⟩
      obtain ⟨noneNext, later⟩ := inductionHypothesis done
      obtain ⟨noneHere, nothing⟩ := Choice.consider_eq_none step noneNext
      refine ⟨noneHere, fun other member => ?_⟩
      rcases List.mem_cons.mp member with rfl | among
      · exact nothing
      · exact later other among

/-- A search that chose no offer was made none by any route. -/
theorem bestOffer_eq_none (done : bestOffer s threads job = .ok choice)
    (none : choice.best = none) (member : r ∈ s.plan.routeIds) :
    FindsNothing (s.cheapestOnRoute job .none r) := by
  rw [bestOffer] at done
  split at done
  · simp only [chooseSideBySide, bind_eq_ok] at done
    rcases done with ⟨answers, asked, done⟩
    obtain ⟨answer, among, answered⟩ := answer_of_mapM_eq_ok asked member
    have nothing := considerAll_eq_none done none answer among
    split at answered
    · cases answered
    · cases answered
      exact nothing
  · exact (chooseInTurn_eq_none done none).2 r member

end Fill

/-! ### Marks -/

namespace Room

variable {p : Problem α} {plan marked : Plan α} {volumes : Volumes α} {job r : Nat} {v : Vehicle α}
  {demand : Load α}

/-- A route is not full if one of its closed trips has room. -/
theorem isFullFor_eq_ok {trips : List Nat} {full : Bool}
    (done : isFullFor plan volumes r v demand trips = .ok full) :
    full = false ↔ ∃ trip ∈ trips, ∃ load, plan.ledger.load? r trip = some load ∧
      (load + demand).fits (v.tripCapacity trip) = true ∧
      ∀ location, plan.ledger.unloadLocation? r trip = some location →
        volumes.isLoadable location demand = .ok true := by
  induction trips with
  | nil =>
      cases done
      simp
  | cons trip rest inductionHypothesis =>
      unfold isFullFor at done
      rw [List.exists_mem_cons_iff]
      cases loaded : plan.ledger.load? r trip with
      | none =>
          rw [loaded] at done
          simp [inductionHypothesis done]
      | some load =>
          simp only [loaded] at done
          by_cases fits : (load + demand).fits (v.tripCapacity trip) = true
          · rw [if_pos fits] at done
            cases unloads : plan.ledger.unloadLocation? r trip with
            | none =>
                rw [unloads] at done
                cases done
                simp [fits]
            | some location =>
                simp only [unloads, bind_eq_ok] at done
                rcases done with ⟨loadable, asked, done⟩
                cases loadable with
                | true =>
                    cases done
                    simp [fits, asked]
                | false => simp [inductionHypothesis done, asked]
          · rw [if_neg fits] at done
            simp [inductionHypothesis done, fits]

/-- After marking, the ledger says of each route whether it is full. -/
theorem needsBase_of_marked (done : markFullRoutes p plan volumes job = .ok marked)
    (among : r ∈ plan.routeIds) :
    ∃ full, isFull p plan volumes job r = .ok full ∧ marked.ledger.needsBase r = full := by
  simp only [markFullRoutes, bind_eq_ok] at done
  rcases done with ⟨full, asked, equal⟩
  cases equal
  have answers : ∀ mark ∈ plan.routeIds.zip full, isFull p plan volumes job mark.1 = .ok mark.2 :=
    fun mark beside => answer_of_mem_zip asked beside
  have present := among
  rw [← map_fst_zip_of_mapM asked] at present
  generalize plan.routeIds.zip full = marks at answers present ⊢
  -- A mark that was noted is kept, or another is noted that says the same.
  suffices along : ∀ l : Ledger α,
      (∃ full, isFull p plan volumes job r = .ok full ∧ l.needsBase? r = some full) ∨
        r ∈ marks.map Prod.fst →
      ∃ full, isFull p plan volumes job r = .ok full ∧
        (marks.foldl (fun l mark => (l.putNeedsBase mark.1 mark.2).2) l).needsBase? r =
          some full by
    obtain ⟨full, answer, noted⟩ := along plan.ledger (.inr present)
    exact ⟨full, answer, congrArg (·.getD true) noted⟩
  clear present
  induction marks with
  | nil =>
      rintro l (noted | absent)
      · exact noted
      · cases absent
  | cons mark marks inductionHypothesis =>
      intro l noted
      apply inductionHypothesis fun other later => answers other (List.mem_cons_of_mem mark later)
      by_cases same : mark.1 = r
      · left
        refine ⟨mark.2, same ▸ answers mark List.mem_cons_self, ?_⟩
        show ((l.modifyEntry mark.1 _).entry r).needsBase = some mark.2
        rw [← same, Ledger.entry_modifyEntry_self]
      · rcases noted with ⟨full, answer, noted⟩ | present
        · left
          refine ⟨full, answer, ?_⟩
          show ((l.modifyEntry mark.1 _).entry r).needsBase = some full
          rw [Ledger.entry_modifyEntry_of_ne l same]
          exact noted
        · right
          exact (List.mem_cons.mp present).resolve_left fun equal => same equal.symm

end Room

end Haulage

/-
Module: Haulage.Proofs.Offers
Purpose: What an offer promises.  Whatever evaluation found it, it either puts a job into a trip
  that has room for it, or opens a trip at the end of the route, or splits a trip by a base.
Main exports: JoinsTrip, OpensTrip, Serves, SplitsTrip, Survey.cheapest_eq_some,
  Survey.cheapestOnRoute_serves, Fill.bestOffer_serves, Survey.firstPlace_splits
-/
import Haulage.Pass.Fill
import Haulage.Proofs.Edits
import Haulage.Proofs.Gap
import Mathlib.Tactic.SplitIfs

namespace Haulage

variable {α : Type} [Quantity α]

/-! ### Rules -/

namespace Trial

/-- A gap in which all rules agree. -/
theorem verdict_eq_fulfilled {p : Problem α} {plan : Plan α} {volumes : Volumes α} {t : Trial α}
    (agreed : t.verdict p plan volumes = .ok .fulfilled) :
    t.capacityVerdict p plan = .ok .fulfilled ∧ t.volumeVerdict p volumes = .ok .fulfilled ∧
      t.sequenceVerdict = .fulfilled := by
  simp only [verdict, bind_eq_ok] at agreed
  rcases agreed with ⟨capacity, capacityEq, agreed⟩
  rw [capacityEq]
  cases capacity with
  | breakTrip => cases agreed
  | fulfilled | continueScan =>
      simp only [bind_eq_ok] at agreed
      rcases agreed with ⟨volume, volumeEq, agreed⟩
      rw [volumeEq]
      cases volume with
      | breakTrip => cases agreed
      | fulfilled | continueScan =>
          simp only [Except.ok.injEq, Verdict.join_eq_fulfilled] at agreed
          simp_all

/-- A trip with room for a job, in a gap that is not the end of the route. -/
theorem capacityVerdict_destination {p : Problem α} {plan : Plan α} {t : Trial α} {job : Nat}
    (stop : t.newStop = .destination job)
    (agreed : t.capacityVerdict p plan = .ok .fulfilled) :
    t.gap.next ≠ .finish ∧ ∃ d, p.destination job = .ok d ∧
      (t.load + d.demand).fits (t.vehicle.tripCapacity t.gap.trip) = true := by
  simp only [capacityVerdict, stop] at agreed
  by_cases atEnd : t.gap.next = .finish
  · rw [if_pos atEnd] at agreed
    cases agreed
  · rw [if_neg atEnd] at agreed
    simp only [bind_eq_ok] at agreed
    rcases agreed with ⟨route, _, agreed⟩
    split at agreed
    · cases agreed
    · simp only [bind_eq_ok] at agreed
      rcases agreed with ⟨d, found, agreed⟩
      split at agreed
      · exact ⟨atEnd, d, found, ‹_›⟩
      · cases agreed

/-- A site that takes a job in addition. -/
theorem volumeVerdict_destination {p : Problem α} {volumes : Volumes α} {t : Trial α}
    {job location : Nat} (stop : t.newStop = .destination job)
    (unloads : t.unloadLocation = some location)
    (agreed : t.volumeVerdict p volumes = .ok .fulfilled) :
    ∃ d, p.destination job = .ok d ∧ volumes.isLoadable location d.demand = .ok true := by
  simp only [volumeVerdict, stop, unloads, bind_eq_ok] at agreed
  rcases agreed with ⟨d, found, loadable, asked, agreed⟩
  cases loadable with
  | false => cases agreed
  | true => exact ⟨d, found, asked⟩

omit [Quantity α] in
/-- A base is put behind a destination, and not in front of another base. -/
theorem sequenceVerdict_base {t : Trial α} (isBase : t.newStop.isBase = true)
    (agreed : t.sequenceVerdict = .fulfilled) :
    t.gap.previous ≠ .start ∧ t.gap.previous.isBase = false ∧ t.gap.next.isBase = false := by
  simp only [sequenceVerdict, isBase, Bool.true_and] at agreed
  split at agreed
  · cases agreed
  · rename_i apart
    simp only [Bool.or_eq_true, decide_eq_true_eq, not_or, Bool.not_eq_true] at apart
    exact ⟨apart.1.1, apart.1.2, apart.2⟩

end Trial

/-! ### Places to unload -/

/-- The best of some locations is one of them, and takes the load. -/
theorem cheapestAmong_eq_ok {p : Problem α} {volumes : Volumes α} {q : LocationQuery α}
    {load : Load α} {candidates : List Nat} {best found : Option (Nat × α)}
    (searched : cheapestAmong p volumes q load best candidates = .ok found) :
    found = best ∨ ∃ location cost, found = some (location, cost) ∧ location ∈ candidates ∧
      volumes.isLoadable location load = .ok true := by
  induction candidates generalizing best with
  | nil =>
      cases searched
      exact .inl rfl
  | cons candidate rest inductionHypothesis =>
      simp only [cheapestAmong, bind_eq_ok] at searched
      rcases searched with ⟨loadable, asked, searched⟩
      cases loadable with
      | false =>
          rcases inductionHypothesis searched with same | ⟨location, cost, among, member, takes⟩
          · exact .inl same
          · exact .inr ⟨location, cost, among, List.mem_cons_of_mem candidate member, takes⟩
      | true =>
          simp only [if_true, bind_eq_ok] at searched
          rcases searched with ⟨access, _, egress, _, searched⟩
          rcases inductionHypothesis searched with same | ⟨location, cost, among, member, takes⟩
          · split at same
            · exact .inr ⟨candidate, _, same, List.mem_cons_self, asked⟩
            · exact .inl same
          · exact .inr ⟨location, cost, among, List.mem_cons_of_mem candidate member, takes⟩

/-- A chosen location is one of those offered, and takes the load. -/
theorem cheapestLoadable_eq_some {p : Problem α} {provider : LocationProvider α}
    {volumes : Volumes α} {q : LocationQuery α} {load : Load α} {location : Nat}
    (chosen : cheapestLoadable p provider volumes q load = .ok (some location)) :
    ∃ offered, provider.offers q = .ok offered ∧ location ∈ offered ∧
      volumes.isLoadable location load = .ok true := by
  simp only [cheapestLoadable, bind_eq_ok] at chosen
  rcases chosen with ⟨offered, offers, best, searched, chosen⟩
  refine ⟨offered, offers, ?_⟩
  rcases cheapestAmong_eq_ok searched with rfl | ⟨found, cost, rfl, member, takes⟩
  · cases chosen
  · cases chosen
    exact ⟨member, takes⟩

/-! ### Promises -/

/-- A job is put into a trip that another stop follows, which has room for it. -/
structure JoinsTrip (plan : Plan α) (volumes : Volumes α) (route : Route) (v : Vehicle α)
    (job : Nat) (demand : Load α) (before after : List Stop) (q : Proposal) : Prop where
  stops_eq : route.stops = before ++ after
  followed : after ≠ []
  trip_eq : q.trip = basesIn before
  changes_eq : q.changes = [.insert q.route before.length (.destination job)]
  fits : (plan.ledger.load q.route q.trip + demand).fits (v.tripCapacity q.trip) = true
  loadable : ∀ location, plan.ledger.unloadLocation? q.route q.trip = some location →
    volumes.isLoadable location demand = .ok true

/-- A job is put at the end of a route, with the lowest free base behind it, at a location that
takes what the base closes. -/
structure OpensTrip (plan : Plan α) (volumes : Volumes α) (provider : LocationProvider α)
    (route : Route) (v : Vehicle α) (job : Nat) (demand : Load α) (b location : Nat)
    (duration : Duration) (q : Proposal) : Prop where
  lowest : plan.pool.lowestFree? = some b
  trip_eq : q.trip = basesIn route.stops
  changes_eq : q.changes =
    [.insert q.route route.stops.length (.destination job),
      .insert q.route (route.stops.length + 1) (.base b), .place b location duration]
  fits : (plan.ledger.load q.route q.trip + demand).fits (v.tripCapacity q.trip) = true
  offered : ∃ query offers, provider.offers query = .ok offers ∧ location ∈ offers
  loadable : volumes.isLoadable location (plan.ledger.load q.route q.trip + demand) = .ok true

/-- An offer to serve a job: on a route that takes another destination, in a trip that is there or
in one that is opened. -/
def Serves (p : Problem α) (plan : Plan α) (volumes : Volumes α) (provider : LocationProvider α)
    (job : Nat) (q : Proposal) : Prop :=
  ∃ route v d, plan.routes[q.route]? = some route ∧ p.vehicle route.vehicle = .ok v ∧
    p.destination job = .ok d ∧
    v.maximumDestinations.all (route.destinationCount < ·) = true ∧
    ((∃ before after, JoinsTrip plan volumes route v job d.demand before after q) ∨
      ∃ b location duration,
        OpensTrip plan volumes provider route v job d.demand b location duration q)

/-- A base is put behind a destination and not in front of a base, at a location that takes what
the base closes. -/
structure SplitsTrip (plan : Plan α) (volumes : Volumes α) (provider : LocationProvider α)
    (route : Route) (b job location : Nat) (duration : Duration) (before after : List Stop)
    (load : Load α) (q : Proposal) : Prop where
  stops_eq : route.stops = before ++ .destination job :: after
  unclosed : after.head?.all (·.isDestination) = true
  trip_eq : q.trip = basesIn before
  changes_eq : q.changes =
    [.insert q.route (before.length + 1) (.base b), .place b location duration]
  load_eq : load =
    ((plan.ledger.stop? q.route before.length).map (·.load)).getD .empty
  offered : ∃ query offers, provider.offers query = .ok offers ∧ location ∈ offers
  loadable : volumes.isLoadable location load = .ok true

section

variable {plan : Plan α} {volumes : Volumes α} {route : Route} {v : Vehicle α} {job : Nat}
  {before after : List Stop} {q : Proposal}

theorem JoinsTrip.visits {demand : Load α}
    (joins : JoinsTrip plan volumes route v job demand before after q)
    (found : plan.routes[q.route]? = some route) : plan.Visits q.route (before ++ after) :=
  joins.stops_eq ▸ Plan.visits_of_route found

theorem SplitsTrip.visits {provider : LocationProvider α} {b location : Nat} {duration : Duration}
    {load : Load α}
    (splits : SplitsTrip plan volumes provider route b job location duration before after load q)
    (found : plan.routes[q.route]? = some route) :
    plan.Visits q.route (before ++ [.destination job] ++ after) := by
  have visits := Plan.visits_of_route found
  rw [splits.stops_eq] at visits
  simpa using visits

/-- The base is put right behind the job. -/
theorem SplitsTrip.changes_behind {provider : LocationProvider α} {b location : Nat}
    {duration : Duration} {load : Load α}
    (splits : SplitsTrip plan volumes provider route b job location duration before after load q) :
    q.changes = [.insert q.route (before ++ [Stop.destination job]).length (.base b),
      .place b location duration] := by
  rw [splits.changes_eq, List.length_append, List.length_singleton]

end

namespace Survey

omit [Quantity α] in
/-- A proposal for the vehicle that a route has makes no other changes. -/
theorem changes_propose {t : RouteTrial α} {route : Route} (own : t.vehicleId = route.vehicle)
    (position trip : Nat) (changes : List Change) :
    (propose t route position trip changes).changes = changes := by
  simp [propose, RouteTrial.switchesVehicle, own]

/-- A gap within the trips of a route, in a trip that has room for a destination. -/
def Roomy (s : Survey α) (t : RouteTrial α) (route : Route) (d : Destination α) (gap : Gap) :
    Prop :=
  ∃ before after, route.stops = before ++ after ∧ after ≠ [] ∧ gap.Between before after ∧
    (s.plan.ledger.load t.route gap.trip + d.demand).fits (t.vehicle.tripCapacity gap.trip) =
      true ∧
    ∀ location, s.plan.ledger.unloadLocation? t.route gap.trip = some location →
      s.volumes.isLoadable location d.demand = .ok true

/-- A look at a gap makes it the best one only if it has room. -/
theorem lookAt_eq_ok {s : Survey α} {t : RouteTrial α} {route : Route} {job : Nat}
    {d : Destination α} {routeCost : α} {known : Bound α} {state : ScanState α} {gap : Gap}
    {step : ForInStep (ScanState α)} {before after : List Stop}
    (served : s.problem.destination job = .ok d) (split : route.stops = before ++ after)
    (between : gap.Between before after)
    (looked : s.lookAt t job d routeCost known state gap = .ok step) :
    step.value.best = state.best ∨
      ∃ cost, step.value.best = some (cost, gap) ∧ s.Roomy t route d gap := by
  simp only [lookAt] at looked
  split at looked
  · cases looked
    exact .inl rfl
  · simp only [bind_eq_ok] at looked
    rcases looked with ⟨verdict, agreed, looked⟩
    cases verdict with
    | breakTrip | continueScan =>
        cases looked
        exact .inl rfl
    | fulfilled =>
        simp only [bind_eq_ok] at looked
        rcases looked with ⟨windowCost, _, detour, _, looked⟩
        obtain ⟨capacity, volume, _⟩ := Trial.verdict_eq_fulfilled agreed
        obtain ⟨notLast, d', found, fits⟩ := Trial.capacityVerdict_destination rfl capacity
        rw [served] at found
        cases found
        split_ifs at looked
        · cases looked
          refine .inr ⟨_, rfl, before, after, split, ?_, between, fits, ?_⟩
          · rintro rfl
            exact notLast between.next_eq
          · intro location unloads
            obtain ⟨d', found, loadable⟩ := Trial.volumeVerdict_destination rfl unloads volume
            rw [served] at found
            cases found
            exact loadable
        · cases looked
          exact .inl rfl

/-- What a scan of the trips of a route finds is a trip with room for the job. -/
theorem scanTrips_joins {s : Survey α} {t : RouteTrial α} {route : Route} {job : Nat}
    {d : Destination α} {routeCost : α} {known : Bound α} {offer : Offer α}
    (own : t.vehicleId = route.vehicle) (served : s.problem.destination job = .ok d)
    (done : s.scanTrips t route job d routeCost known = .ok (some offer)) :
    offer.proposal.route = t.route ∧ ∃ before after,
      JoinsTrip s.plan s.volumes route t.vehicle job d.demand before after offer.proposal := by
  simp only [scanTrips, bind_eq_ok, Except.ok.injEq, Option.map_eq_some_iff] at done
  rcases done with ⟨state, scanned, ⟨cost, gap⟩, best, rfl⟩
  have roomy : ∀ c g, state.best = some (c, g) → s.Roomy t route d g := by
    refine Walk.scan_keeps
      (fun st : ScanState α => ∀ c g, st.best = some (c, g) → s.Roomy t route d g) ?_ (by simp)
      scanned
    intro before after gap st step split between holds looked c g found
    rcases lookAt_eq_ok served split between.toBetween looked with same | ⟨cost, became, room⟩
    · exact holds c g (same ▸ found)
    · rw [became] at found
      cases found
      exact room
  obtain ⟨before, after, split, followed, between, fits, loadable⟩ := roomy cost gap best
  refine ⟨rfl, before, after, split, followed, between.trip_eq, ?_, fits, loadable⟩
  rw [changes_propose own, between.position_eq]
  rfl

/-- A trip opened at the end of a route. -/
theorem openTrip_opens {s : Survey α} {t : RouteTrial α} {route : Route} {job b : Nat}
    {d : Destination α} {routeCost : α} {known : Bound α} {offer : Offer α}
    (own : t.vehicleId = route.vehicle) (served : s.problem.destination job = .ok d)
    (lowest : s.plan.pool.lowestFree? = some b)
    (done : s.openTrip t route job d b routeCost known = .ok (some offer)) :
    offer.proposal.route = t.route ∧ ∃ location duration,
      OpensTrip s.plan s.volumes s.provider route t.vehicle job d.demand b location duration
        offer.proposal := by
  simp only [openTrip, bind_eq_ok] at done
  rcases done with ⟨tail, walked, chosen, choice, done⟩
  have between := Walk.tailGap_met walked
  cases chosen with
  | none => cases done
  | some location =>
      obtain ⟨offers, offered, among, takes⟩ := cheapestLoadable_eq_some choice
      simp only [bind_eq_ok] at done
      rcases done with ⟨verdict, agreed, done⟩
      cases verdict with
      | breakTrip | continueScan => cases done
      | fulfilled =>
          simp only [bind_eq_ok] at done
          rcases done with ⟨leaving, _, arrival, _, duration, _, verdict, _, done⟩
          cases verdict with
          | breakTrip | continueScan => cases done
          | fulfilled =>
              simp only [bind_eq_ok] at done
              rcases done with ⟨_, _, _, _, _, _, _, _, done⟩
              split_ifs at done
              · cases done
              · cases done
                obtain ⟨capacity, _, _⟩ := Trial.verdict_eq_fulfilled agreed
                obtain ⟨_, d', found, fits⟩ := Trial.capacityVerdict_destination rfl capacity
                rw [served] at found
                cases found
                refine ⟨rfl, location, duration, lowest, between.trip_eq, ?_, fits,
                  ⟨_, offers, offered, among⟩, takes⟩
                rw [changes_propose own, between.position_eq]
                rfl

/-- The cheapest way to serve a job is found in a trip of the route, or opens one. -/
theorem cheapest_eq_some {s : Survey α} {r job vehicle : Nat} {departure : Instant}
    {known : Bound α} {offer : Offer α}
    (done : s.cheapest r job vehicle departure known = .ok (some offer)) :
    ∃ route v d routeCost,
      let t : RouteTrial α := ⟨r, vehicle, v, departure, .destination job⟩
      s.plan.routes[r]? = some route ∧ s.problem.vehicle vehicle = .ok v ∧
        s.problem.destination job = .ok d ∧
        v.maximumDestinations.all (route.destinationCount < ·) = true ∧
        t.switchCost s.problem s.plan.pool route = .ok routeCost ∧
        ((∃ bound, s.scanTrips t route job d routeCost bound = .ok (some offer)) ∨
          ∃ b bound, s.plan.pool.lowestFree? = some b ∧
            s.openTrip t route job d b routeCost bound = .ok (some offer)) := by
  simp only [cheapest, bind_eq_ok, Plan.route_eq_ok] at done
  rcases done with ⟨route, found, v, driven, done⟩
  split_ifs at done with full opening
  · cases done
  all_goals
    simp only [RouteTrial.withinMaximum, Stop.isDestination, Stop.isBase_destination,
      Bool.not_false, Bool.not_true, Bool.false_or, Bool.not_eq_true', Bool.not_eq_false] at full
    simp only [bind_eq_ok] at done
    rcases done with ⟨d, served, routeCost, switches, best, scanned, done⟩
    refine ⟨route, v, d, routeCost, found, driven, served, full, switches, ?_⟩
  · cases lowest : s.plan.pool.lowestFree? with
    | none =>
        rw [lowest] at done
        cases best with
        | none => cases done
        | some offer =>
            cases done
            exact .inl ⟨known, scanned⟩
    | some b =>
        rw [lowest] at done
        simp only [bind_eq_ok] at done
        rcases done with ⟨opened, asked, done⟩
        cases opened with
        | none =>
            cases done
            exact .inl ⟨known, scanned⟩
        | some other =>
            cases done
            exact .inr ⟨b, _, rfl, asked⟩
  · cases done
    exact .inl ⟨known, scanned⟩

/-- The best offer of a route serves the job there. -/
theorem cheapestOnRoute_serves {s : Survey α} {job r : Nat} {known : Bound α} {offer : Offer α}
    (done : s.cheapestOnRoute job known r = .ok (some offer)) :
    offer.proposal.route = r ∧ Serves s.problem s.plan s.volumes s.provider job offer.proposal := by
  simp only [cheapestOnRoute, bind_eq_ok, Plan.route_eq_ok] at done
  rcases done with ⟨route, found, departure, _, done⟩
  obtain ⟨same, v, d, routeCost, foundAgain, driven, served, full, _, either⟩ :=
    cheapest_eq_some done
  cases found.symm.trans foundAgain
  rcases either with ⟨_, scanned⟩ | ⟨b, _, lowest, opened⟩
  · obtain ⟨rfl, joins⟩ := scanTrips_joins rfl served scanned
    exact ⟨rfl, route, v, d, found, driven, served, full, .inl joins⟩
  · obtain ⟨rfl, location, duration, opens⟩ := openTrip_opens rfl served lowest opened
    exact ⟨rfl, route, v, d, found, driven, served, full, .inr ⟨b, location, duration, opens⟩⟩

/-- A look at a gap finds nothing new, or a place where the base splits a trip.  What it would
unload is the load noted at the stop before the gap. -/
theorem lookForBase_eq_ok {s : Survey α} {t : RouteTrial α} {route : Route} {b : Nat}
    {counts : List LocationCount} {found : Option Proposal} {gap : Gap}
    {step : ForInStep (Option Proposal)} {before after : List Stop}
    (own : t.vehicleId = route.vehicle)
    (split : route.stops = before ++ after) (between : gap.Between before after)
    (looked : s.lookForBase t route b counts found gap = .ok step) :
    step.value = found ∨ ∃ q job location duration before after load, step.value = some q ∧
      q.route = t.route ∧
      SplitsTrip s.plan s.volumes s.provider route b job location duration before after load q := by
  simp only [lookForBase, bind_eq_ok] at looked
  rcases looked with ⟨chosen, choice, looked⟩
  cases chosen with
  | none =>
      cases looked
      exact .inl rfl
  | some location =>
      obtain ⟨offers, offered, among, takes⟩ := cheapestLoadable_eq_some choice
      simp only [bind_eq_ok] at looked
      rcases looked with ⟨arrival, _, duration, _, verdict, agreed, looked⟩
      cases verdict with
      | breakTrip | continueScan =>
          cases looked
          exact .inl rfl
      | fulfilled =>
          cases looked
          obtain ⟨_, _, sequence⟩ := Trial.verdict_eq_fulfilled agreed
          obtain ⟨started, apart, free⟩ := Trial.sequenceVerdict_base rfl sequence
          obtain ⟨earlier, job, rfl⟩ := between.exists_job started apart
          refine .inr ⟨_, job, location, duration, earlier, after, s.loadBefore t.route gap, rfl,
            rfl, ?_⟩
          refine ⟨by simpa using split, ?_, ?_, ?_, ?_, ⟨_, offers, offered, among⟩, takes⟩
          · rw [between.next_eq] at free
            cases after with
            | nil => rfl
            | cons stop rest => simpa [Waypoint.isBase, Stop.isDestination] using free
          · simpa [propose] using between.trip_eq
          · rw [changes_propose own, between.position_eq]
            simp [propose]
          · have previous : gap.previous = .at (.destination job) := by
              simp [between.previous_eq]
            simp [loadBefore, previous, Waypoint.isDestination, Stop.isDestination,
              between.position_eq, propose]

/-- The first place for a base splits a trip. -/
theorem firstPlace_splits {s : Survey α} {r b vehicle : Nat} {departure : Instant} {q : Proposal}
    {route : Route} (found : s.plan.routes[r]? = some route) (own : vehicle = route.vehicle)
    (done : s.firstPlace r b vehicle departure = .ok (some q)) :
    q.route = r ∧ ∃ job location duration before after load,
      SplitsTrip s.plan s.volumes s.provider route b job location duration before after load q := by
  simp only [firstPlace] at done
  split at done
  · cases done
  simp only [bind_eq_ok, Plan.route_eq_ok] at done
  rcases done with ⟨v, _, same, foundAgain, scanned⟩
  rw [found] at foundAgain
  cases foundAgain
  refine Walk.scan_keeps (fun found? : Option Proposal => ∀ q, found? = some q →
    q.route = r ∧ ∃ job location duration before after load,
      SplitsTrip s.plan s.volumes s.provider route b job location duration before after load q)
    ?_ (by simp) scanned q rfl
  intro before after gap found? step split between holds looked q taken
  rcases lookForBase_eq_ok own split between.toBetween looked with
    same | ⟨other, job, location, duration, front, back, load, became, here, splits⟩
  · exact holds q (same ▸ taken)
  · rw [became] at taken
    cases taken
    exact ⟨here, job, location, duration, front, back, load, splits⟩

end Survey

namespace Fill

/-- The best offer changes only to the offer that is considered. -/
theorem Choice.consider_eq_ok {c next : Choice α} {answer : Except Failure (Option (Offer α))}
    (done : c.consider answer = .ok next) :
    next.best = c.best ∨ ∃ offer, answer = .ok (some offer) ∧ next.best = some offer := by
  unfold consider at done
  split at done
  · cases done
    exact .inl rfl
  · rename_i offer
    cases done
    split
    · exact .inr ⟨offer, rfl, rfl⟩
    · exact .inl rfl
  · cases done
    exact .inl rfl
  · cases done

/-- The best offer so far is the answer of a route that was asked below some bound. -/
def Choice.Answered (s : Survey α) (job : Nat) (c : Choice α) : Prop :=
  ∀ offer, c.best = some offer → ∃ known r, s.cheapestOnRoute job known r = .ok (some offer)

theorem Choice.Answered.consider {s : Survey α} {job : Nat} {c next : Choice α}
    {answer : Except Failure (Option (Offer α))} (before : c.Answered s job)
    (asked : ∀ offer, answer = .ok (some offer) →
      ∃ known r, s.cheapestOnRoute job known r = .ok (some offer))
    (done : c.consider answer = .ok next) : next.Answered s job := by
  intro offer taken
  rcases Choice.consider_eq_ok done with same | ⟨other, answered, became⟩
  · exact before offer (same ▸ taken)
  · rw [became] at taken
    cases taken
    exact asked _ answered

theorem chooseInTurn_answered {s : Survey α} {job : Nat} {routes : List Nat}
    {c choice : Choice α} (before : c.Answered s job)
    (done : chooseInTurn s job c routes = .ok choice) : choice.Answered s job := by
  induction routes generalizing c with
  | nil =>
      cases done
      exact before
  | cons r rest inductionHypothesis =>
      simp only [chooseInTurn, bind_eq_ok] at done
      rcases done with ⟨next, step, done⟩
      apply inductionHypothesis (before.consider _ step) done
      intro offer answered
      exact ⟨_, r, answered⟩

theorem chooseSideBySide_answered {s : Survey α} {job : Nat} {routes : List Nat}
    {choice : Choice α} (done : chooseSideBySide s job routes = .ok choice) :
    choice.Answered s job := by
  simp only [chooseSideBySide, bind_eq_ok] at done
  rcases done with ⟨answers, asked, done⟩
  refine foldlM_keeps (Choice.Answered s job) ?_ (by simp [Choice.Answered]) done
  intro answer member c next before step
  apply before.consider _ step
  rintro offer rfl
  obtain ⟨r, _, answered⟩ := mem_of_mapM_eq_ok asked member
  refine ⟨none, r, ?_⟩
  split at answered
  · cases answered
  · simpa using answered

/-- The best offer of all routes is one that a route made. -/
theorem bestOffer_answered {s : Survey α} {threads : Threads} {job : Nat} {choice : Choice α}
    (done : bestOffer s threads job = .ok choice) : choice.Answered s job := by
  rw [bestOffer] at done
  split at done
  · exact chooseSideBySide_answered done
  · exact chooseInTurn_answered (by simp [Choice.Answered]) done

/-- The best offer of all routes serves the job. -/
theorem bestOffer_serves {s : Survey α} {threads : Threads} {job : Nat} {choice : Choice α}
    {offer : Offer α} (done : bestOffer s threads job = .ok choice)
    (best : choice.best = some offer) :
    Serves s.problem s.plan s.volumes s.provider job offer.proposal := by
  obtain ⟨known, r, answered⟩ := bestOffer_answered done offer best
  exact (Survey.cheapestOnRoute_serves answered).2

end Fill

end Haulage

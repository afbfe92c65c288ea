/-
Module: Haulage.Proofs.Exhaustive
Purpose: The scan of a route that gives up trips and keeps a running bound finds what an exhaustive
  one does, which checks every gap on its own and takes the first of the cheapest offers in the end.
Main exports: Survey.offerAt, Survey.offers, Survey.settle, Survey.verdict_later,
  Survey.scanTrips_eq, Survey.cheapest_eq, Survey.cheapest_eq_settle
-/
import Haulage.Proofs.Tracked
import Haulage.Proofs.UnfailingSessions
import Mathlib.Data.List.MinMax
import Mathlib.Data.List.ReduceOption

namespace Haulage

/-! ### The exhaustive search -/

namespace Survey

section

variable {α : Type} [Quantity α]

/-- What a gap offers that is checked on its own: nothing, unless all rules agree on it. -/
def offerAt (s : Survey α) (t : RouteTrial α) (route : Route) (job : Nat) (d : Destination α)
    (routeCost : α) (gap : Gap) : Except Failure (Option (Offer α)) := do
  let trial := s.trialAt t job gap
  match ← trial.verdict s.problem s.plan s.volumes with
  | .breakTrip | .continueScan => .ok none
  | .fulfilled =>
    let windowCost ← trial.windowCost s.problem s.pricing s.plan
    let detour ← s.problem.detourCost t.vehicle gap.previousLocation d.location gap.nextLocation
    .ok (some ⟨routeCost + windowCost + detour, propose t route gap.position gap.trip
      [.insert t.route gap.position (.destination job)]⟩)

/-- What all gaps of a route offer, one after the other. -/
def offersWithin (s : Survey α) (t : RouteTrial α) (route : Route) (job : Nat) (d : Destination α)
    (routeCost : α) : Except Failure (List (Offer α)) :=
  Walk.scan s.problem s.plan.pool t.vehicle
    (fun offers gap => do
      let offer ← s.offerAt t route job d routeCost gap
      .ok (.yield (offers ++ offer.toList)))
    (.start t.vehicle t.departure) [] route.stops

/-- What a new trip offers, if one is wanted and a base is free. -/
def offerBeyond (s : Survey α) (t : RouteTrial α) (route : Route) (job : Nat) (d : Destination α)
    (routeCost : α) : Except Failure (Option (Offer α)) :=
  if s.allowsNewTrips && s.plan.ledger.needsBase t.route then
    match s.plan.pool.lowestFree? with
    | some base => s.openTrip t route job d base routeCost none
    | none => .ok none
  else .ok none

/-- All offers for a job on a route, those of its gaps first and that of a new trip last. -/
def offers (s : Survey α) (r job vehicle : Nat) (departure : Instant) :
    Except Failure (List (Offer α)) := do
  let route ← s.plan.route r
  let v ← s.problem.vehicle vehicle
  let t : RouteTrial α := ⟨r, vehicle, v, departure, .destination job⟩
  let d ← s.problem.destination job
  let routeCost ← t.switchCost s.problem s.plan.pool route
  let within ← s.offersWithin t route job d routeCost
  let beyond ← s.offerBeyond t route job d routeCost
  .ok (within ++ beyond.toList)

/-- Whether a new trip is wanted, but no base is left for it. -/
def lacksBase (s : Survey α) (r : Nat) : Bool :=
  s.allowsNewTrips && s.plan.ledger.needsBase r && s.plan.pool.lowestFree?.isNone

end

/-- The first of the cheapest offers, if it costs less than what is known.  Without one, the answer is
that there is none, or that a base is lacking. -/
def settle (s : Survey Rat) (r : Nat) (known : Bound Rat) (offers : List (Offer Rat)) :
    Except Failure (Option (Offer Rat)) :=
  match known.cut Offer.cost (offers.argmin Offer.cost) with
  | some offer => .ok (some offer)
  | none => if s.lacksBase r then .error (.refused .poolExhausted) else .ok none

end Survey

theorem reduceOption_cons {β : Type} (answer : Option β) (answers : List (Option β)) :
    (answer :: answers).reduceOption = answer.toList ++ answers.reduceOption := by
  cases answer with
  | none => rfl
  | some b => rfl

/-- A scan that collects what each gap has answers with what all gaps have, in their order. -/
theorem Walk.scan_collect {α β : Type} [Quantity α] {p : Problem α} {pool : BasePool}
    {v : Vehicle α} {f : Gap → Except Failure (Option β)} {w : Walk} {stops : List Stop}
    {before all : List β} :
    Walk.scan p pool v (fun found gap => do
        let answer ← f gap
        .ok (.yield (found ++ answer.toList))) w before stops = .ok all ↔
      ∃ gaps answers, w.gaps p pool v stops = .ok gaps ∧ gaps.mapM f = .ok answers ∧
        all = before ++ answers.reduceOption := by
  induction stops generalizing w before with
  | nil =>
      simp only [scan, gaps, bind_eq_ok, Except.ok.injEq]
      constructor
      · rintro ⟨step, ⟨answer, here, rfl⟩, finished⟩
        cases finished
        refine ⟨[w.lastGap v], [answer], rfl, mapM_cons_eq_ok.mpr ⟨answer, [], here, rfl, rfl⟩, ?_⟩
        rw [reduceOption_cons, List.reduceOption_nil, List.append_nil]
      · rintro ⟨_, answers, rfl, mapped, rfl⟩
        obtain ⟨answer, rest, here, ended, rfl⟩ := mapM_cons_eq_ok.mp mapped
        obtain rfl : [] = rest := Except.ok.inj ended
        refine ⟨_, ⟨answer, here, rfl⟩, ?_⟩
        rw [reduceOption_cons, List.reduceOption_nil, List.append_nil]
  | cons stop rest inductionHypothesis =>
      simp only [scan, gaps, bind_eq_ok, Except.ok.injEq]
      constructor
      · rintro ⟨⟨gap, further⟩, moved, step, ⟨answer, here, rfl⟩, later⟩
        obtain ⟨gaps, answers, walked, mapped, rfl⟩ := inductionHypothesis.mp later
        refine ⟨gap :: gaps, answer :: answers, ⟨(gap, further), moved, gaps, walked, rfl⟩,
          mapM_cons_eq_ok.mpr ⟨answer, answers, here, mapped, rfl⟩, ?_⟩
        rw [reduceOption_cons, List.append_assoc]
      · rintro ⟨_, _, ⟨⟨gap, further⟩, moved, gaps, walked, rfl⟩, mapped, rfl⟩
        obtain ⟨answer, answers, here, later, rfl⟩ := mapM_cons_eq_ok.mp mapped
        refine ⟨(gap, further), moved, _, ⟨answer, here, rfl⟩, inductionHypothesis.mpr ?_⟩
        exact ⟨gaps, answers, walked, later, by rw [reduceOption_cons, List.append_assoc]⟩

/-- The offers of a route are those of its gaps, each checked on its own, in the order of the gaps. -/
theorem Survey.offersWithin_eq_ok {α : Type} [Quantity α] {s : Survey α} {t : RouteTrial α}
    {route : Route} {job : Nat} {d : Destination α} {routeCost : α} {offers : List (Offer α)} :
    s.offersWithin t route job d routeCost = .ok offers ↔
      ∃ gaps answers, Walk.gaps s.problem s.plan.pool t.vehicle (.start t.vehicle t.departure)
          route.stops = .ok gaps ∧
        gaps.mapM (s.offerAt t route job d routeCost) = .ok answers ∧
        offers = answers.reduceOption := by
  rw [offersWithin, Walk.scan_collect]
  rfl

/-! ### The gaps of a trip -/

namespace Trial

variable {α : Type} [Quantity α] {p : Problem α} {plan : Plan α} {volumes : Volumes α}
  {t later : Trial α} {job other : Nat} {d : Destination α}

/-- Whether a trip has no room for a destination: it exceeds the vehicle, or the site where the trip
unloads. -/
def LacksRoom (volumes : Volumes α) (t : Trial α) (d : Destination α) : Prop :=
  (t.load + d.demand).fits (t.vehicle.tripCapacity t.gap.trip) = false ∨
    ∃ location, t.unloadLocation = some location ∧
      volumes.isLoadable location d.demand = .ok false

/-- In front of another job, only a lack of room makes a trip be given up. -/
theorem lacksRoom_of_broken (stop : t.newStop = .destination job)
    (follows : t.gap.next = .at (.destination other))
    (broken : t.verdict p plan volumes = .ok .breakTrip) :
    ∃ route d, plan.routes[t.route]? = some route ∧ p.destination job = .ok d ∧
      t.LacksRoom volumes d := by
  simp only [verdict, capacityVerdict, stop, follows, reduceCtorEq, if_false, bind_eq_ok] at broken
  obtain ⟨capacity, ⟨route, found, room⟩, broken⟩ := broken
  have opens : ((Waypoint.at (.destination other)).isBase &&
      decide (t.gap.position < route.length) && t.load.isEmpty) = false := rfl
  rw [opens, if_neg Bool.false_ne_true, bind_eq_ok] at room
  obtain ⟨d, served, room⟩ := room
  refine ⟨route, d, Plan.route_eq_ok.mp found, served, ?_⟩
  cases fits : (t.load + d.demand).fits (t.vehicle.tripCapacity t.gap.trip) with
  | false => exact .inl fits
  | true =>
      rw [if_pos fits] at room
      cases room
      simp only [volumeVerdict, stop, bind_eq_ok] at broken
      obtain ⟨volume, takes, broken⟩ := broken
      cases unloads : t.unloadLocation with
      | none =>
          rw [unloads] at takes
          cases takes
          rw [sequenceVerdict, stop] at broken
          cases broken
      | some location =>
          simp only [unloads, served, bind_eq_ok, Except.ok.injEq, exists_eq_left'] at takes
          obtain ⟨loadable, asked, takes⟩ := takes
          cases loadable with
          | false => exact .inr ⟨location, unloads, asked⟩
          | true =>
              cases takes
              rw [sequenceVerdict, stop] at broken
              cases broken

/-- In a trip without room each gap is a reason to give the trip up. -/
theorem LacksRoom.verdict {route : Route} (lacks : t.LacksRoom volumes d)
    (stop : t.newStop = .destination job) (found : plan.routes[t.route]? = some route)
    (served : p.destination job = .ok d) : t.verdict p plan volumes = .ok .breakTrip := by
  have capacity : t.capacityVerdict p plan = .ok .breakTrip ∨
      t.capacityVerdict p plan = .ok .fulfilled ∧
        (t.load + d.demand).fits (t.vehicle.tripCapacity t.gap.trip) = true := by
    rw [capacityVerdict_eq stop served found]
    split_ifs with _ _ fits
    · exact .inl rfl
    · exact .inl rfl
    · exact .inr ⟨rfl, fits⟩
    · exact .inl rfl
  rcases capacity with breaks | ⟨consents, fits⟩
  · rw [Trial.verdict, breaks]
    rfl
  · rcases lacks with exceeds | ⟨location, unloads, full⟩
    · rw [exceeds] at fits
      cases fits
    · have volume : t.volumeVerdict p volumes = .ok .breakTrip := by
        simp only [volumeVerdict, stop, unloads, served]
        show (volumes.isLoadable location d.demand >>= _) = _
        rw [full]
        rfl
      rw [Trial.verdict, consents, volume]
      rfl

end Trial

/-! ### The pruned scan -/

namespace Survey

section

variable {α : Type} [Quantity α] {s : Survey α} {t : RouteTrial α} {job : Nat}
  {before after front back stops : List Stop} {stop : Stop} {gap later : Gap}

/-- Where a trip was given up, each gap of it that comes later is a reason to give it up. -/
theorem verdict_later (split : stops = before ++ stop :: after)
    (between : gap.Between before (stop :: after)) (parts : stops = front ++ back)
    (there : later.Between front back) (beyond : before.length < front.length)
    (same : later.trip = gap.trip)
    (broken : (s.trialAt t job gap).verdict s.problem s.plan s.volumes = .ok .breakTrip) :
    (s.trialAt t job later).verdict s.problem s.plan s.volumes = .ok .breakTrip := by
  have leads : before ++ [stop] <+: front := by
    have first : before ++ [stop] <+: stops := ⟨after, by simp [split]⟩
    have second : front <+: stops := ⟨back, parts.symm⟩
    apply List.prefix_of_prefix_length_le first second
    rw [List.length_append, List.length_singleton]
    exact beyond
  obtain ⟨more, rfl⟩ := leads
  have bases := same
  rw [there.trip_eq, between.trip_eq, basesIn_append, basesIn_append] at bases
  cases stop with
  | base b =>
      rw [basesIn_base] at bases
      omega
  | destination other =>
      -- No base lies between the two, and so the room that lacked before a job lacks again.
      obtain ⟨route, d, found, served, lacks⟩ :=
        Trial.lacksRoom_of_broken rfl between.next_eq broken
      have lacksLater : (s.trialAt t job later).LacksRoom s.volumes d := by
        simpa only [Trial.LacksRoom, trialAt, same] using lacks
      exact lacksLater.verdict rfl found served

/-- Every gap of a trip that was given up is a reason to give it up, from some stops on. -/
def GivesUp (s : Survey α) (t : RouteTrial α) (job : Nat) (stops before : List Stop)
    (state : ScanState α) : Prop :=
  ∀ front back gap, stops = front ++ back → gap.Between front back →
    before.length ≤ front.length → state.brokenTrip = some gap.trip →
    (s.trialAt t job gap).verdict s.problem s.plan s.volumes = .ok .breakTrip

theorem GivesUp.pass {d : Destination α} {routeCost : α} {known : Bound α} {state next : ScanState α}
    (gives : s.GivesUp t job stops before state) (split : stops = before ++ stop :: after)
    (between : gap.Between before (stop :: after))
    (looked : s.lookAt t job d routeCost known state gap = .ok (.yield next)) :
    s.GivesUp t job stops (before ++ [stop]) next := by
  intro front back later parts there beyond broken
  rw [List.length_append, List.length_singleton] at beyond
  obtain ⟨_, equal, _, kept | ⟨own, reason⟩⟩ := lookAt_yields looked
  · cases equal
    exact gives front back later parts there (by omega) (kept ▸ broken)
  · cases equal
    have same : later.trip = gap.trip := Option.some.inj (broken.symm.trans own)
    exact verdict_later split between parts there beyond same reason

/-- What a scan keeps, as an offer. -/
def ScanState.offer? (t : RouteTrial α) (route : Route) (job : Nat) (state : ScanState α) :
    Option (Offer α) :=
  state.best.map fun (cost, gap) =>
    ⟨cost, propose t route gap.position gap.trip [.insert t.route gap.position (.destination job)]⟩

/-- Keeps the first of the cheapest offers, where no trip is given up. -/
def lookAnyway (s : Survey α) (t : RouteTrial α) (route : Route) (job : Nat) (d : Destination α)
    (routeCost : α) (best : Option (Offer α)) (gap : Gap) :
    Except Failure (ForInStep (Option (Offer α))) := do
  let offer ← s.offerAt t route job d routeCost gap
  .ok (.yield (offer.elim best (Bound.improve none Offer.cost best)))

/-- To pass over a gap of a trip that was given up makes no difference. -/
theorem lookAnyway_eq {route : Route} {d : Destination α} {routeCost : α} {state : ScanState α}
    (gives : s.GivesUp t job stops before state) (split : stops = before ++ after)
    (between : gap.Between before after) :
    s.lookAnyway t route job d routeCost (state.offer? t route job) gap =
      (s.lookAt t job d routeCost none state gap).map (Walk.mapStep (·.offer? t route job)) := by
  by_cases broken : state.brokenTrip = some gap.trip
  · have reason := gives before after gap split between (Nat.le_refl _) broken
    simp only [lookAnyway, offerAt, reason, lookAt, if_pos broken]
    rfl
  · simp only [lookAnyway, offerAt, lookAt, if_neg broken, exceptMap_bind, bind_assoc]
    refine bind_congr fun verdict => ?_
    cases verdict with
    | breakTrip | continueScan => rfl
    | fulfilled =>
        simp only [exceptMap_bind, bind_assoc]
        refine bind_congr fun windowCost => bind_congr fun detour => ?_
        generalize routeCost + windowCost + detour = cost
        have kept : Bound.improve none Offer.cost (state.offer? t route job)
            ⟨cost, propose t route gap.position gap.trip
              [.insert t.route gap.position (.destination job)]⟩ =
            (state.take none cost gap).offer? t route job :=
          Bound.improve_map _ state.best (cost, gap)
        refine Eq.trans ?_ (congrArg (Except.map (Walk.mapStep (·.offer? t route job)))
          (ScanState.yield_take none state))
        exact congrArg (fun best => Except.ok (ForInStep.yield best)) kept

end

variable {s : Survey Rat} {t : RouteTrial Rat} {route : Route} {job r vehicle : Nat}
  {d : Destination Rat} {routeCost : Rat} {departure : Instant} {known : Bound Rat}

/-- The first of the cheapest is found by keeping the better one each time. -/
theorem improve_argmin (offers : List (Offer Rat)) (offer : Offer Rat) :
    Bound.improve none Offer.cost (offers.argmin Offer.cost) offer =
      (offers ++ [offer]).argmin Offer.cost := by
  rw [List.argmin_concat]
  cases offers.argmin Offer.cost with
  | none => rfl
  | some best => simp [Bound.improve]

/-- A scan of the trips of a route finds the first of the cheapest offers of all gaps. -/
theorem scanTrips_eq : s.scanTrips t route job d routeCost none =
    (s.offersWithin t route job d routeCost).map (List.argmin Offer.cost) := by
  have anyway : Walk.scan s.problem s.plan.pool t.vehicle (s.lookAnyway t route job d routeCost)
      (.start t.vehicle t.departure) none route.stops =
      (Walk.scan s.problem s.plan.pool t.vehicle (s.lookAt t job d routeCost none)
        (.start t.vehicle t.departure) ⟨none, none⟩ route.stops).map (·.offer? t route job) := by
    apply Walk.scan_map_along (s := ⟨none, none⟩) (·.offer? t route job)
      (s.GivesUp t job route.stops)
    · intro before after gap state split between gives
      exact lookAnyway_eq gives split between.toBetween
    · intro before stop after gap state next split between gives looked
      exact gives.pass split between.toBetween looked
    · intro front back gap _ _ _ broken
      cases broken
  have collected : Walk.scan s.problem s.plan.pool t.vehicle (s.lookAnyway t route job d routeCost)
      (.start t.vehicle t.departure) none route.stops =
      (s.offersWithin t route job d routeCost).map (List.argmin Offer.cost) := by
    apply Walk.scan_map (s := []) (List.argmin Offer.cost)
    intro offers gap
    simp only [lookAnyway, exceptMap_bind]
    refine bind_congr fun offer => ?_
    cases offer with
    | none =>
        rw [Option.toList_none, List.append_nil]
        rfl
    | some offer =>
        exact congrArg (fun best => Except.ok (ForInStep.yield best)) (improve_argmin offers offer)
  rw [← collected, anyway]
  rfl

/-- Where no base is lacking, the answer is the first of the cheapest offers below the bound. -/
theorem settle_eq_ok (supplied : s.lacksBase r = false) (offers : List (Offer Rat)) :
    s.settle r known offers = .ok (known.cut Offer.cost (offers.argmin Offer.cost)) := by
  rw [settle, supplied]
  cases known.cut Offer.cost (offers.argmin Offer.cost) with
  | none => rfl
  | some offer => rfl

/-- What a new trip offers is compared with the best of the gaps, and chosen only if it is cheaper. -/
theorem openTrip_settle {base : Nat} {bound : Bound Rat} (offers : List (Offer Rat))
    (supplied : s.lacksBase r = false)
    (isBound : bound = ((known.cut Offer.cost (offers.argmin Offer.cost)).map Offer.cost).or known)
    {next : Option (Offer Rat) → Except Failure (Option (Offer Rat))}
    (opened : ∀ offer, next (some offer) = .ok (some offer))
    (unopened : next none = .ok (known.cut Offer.cost (offers.argmin Offer.cost))) :
    s.openTrip t route job d base routeCost bound >>= next =
      s.openTrip t route job d base routeCost none >>= fun offer =>
        s.settle r known (offers ++ offer.toList) := by
  rw [openTrip_bind known _ isBound opened unopened]
  cases s.openTrip t route job d base routeCost none with
  | error e => rfl
  | ok offer =>
      refine Eq.trans ?_ (settle_eq_ok supplied (offers ++ offer.toList)).symm
      cases offer with
      | none =>
          rw [Option.toList_none, List.append_nil]
          rfl
      | some offer =>
          show Except.ok (known.improve Offer.cost _ offer) = _
          rw [known.improve_cut, improve_argmin]
          rfl

/-- An evaluation finds what an exhaustive search does: the first of the cheapest offers of all gaps
and of a new trip, if it costs less than what is known.  It has the same faults, too. -/
theorem cheapest_eq (few : ∀ route v, s.plan.routes[r]? = some route →
      s.problem.vehicle vehicle = .ok v →
      v.maximumDestinations.all (route.destinationCount < ·) = true) :
    s.cheapest r job vehicle departure known =
      s.offers r job vehicle departure >>= s.settle r known := by
  simp only [cheapest, offers, bind_assoc]
  cases found : s.plan.route r with
  | error e => rfl
  | ok route =>
  cases driven : s.problem.vehicle vehicle with
  | error e => rfl
  | ok v =>
  have within : RouteTrial.withinMaximum ⟨r, vehicle, v, departure, .destination job⟩ route =
      true := few route v (Plan.route_eq_ok.mp found) driven
  show (if _ then _ else _) = _
  rw [within, Bool.not_true, if_neg Bool.false_ne_true]
  refine bind_congr fun d => bind_congr fun routeCost => ?_
  rw [scanTrips_cut, scanTrips_eq, bind_exceptMap, bind_exceptMap]
  refine bind_congr fun offers => ?_
  rw [offerBeyond]
  by_cases wanted : (s.allowsNewTrips && s.plan.ledger.needsBase r) = true
  · rw [if_pos wanted, if_pos wanted]
    cases lowest : s.plan.pool.lowestFree? with
    | none =>
        have lacks : s.lacksBase r = true := by rw [lacksBase, wanted, lowest]; rfl
        show _ = s.settle r known (offers ++ [])
        rw [List.append_nil, settle, lacks]
        cases known.cut Offer.cost (offers.argmin Offer.cost) with
        | none => rfl
        | some offer => rfl
    | some base =>
        have supplied : s.lacksBase r = false := by rw [lacksBase, wanted, lowest]; rfl
        apply openTrip_settle offers supplied
        · cases known.cut Offer.cost (offers.argmin Offer.cost) with
          | none => rfl
          | some offer => rfl
        · exact fun _ => rfl
        · rfl
  · rw [if_neg wanted, if_neg wanted]
    have supplied : s.lacksBase r = false := by
      rw [lacksBase, eq_false_of_ne_true wanted]
      rfl
    exact ((congrArg _ (List.append_nil offers)).trans (settle_eq_ok supplied offers)).symm

end Survey

/-! ### Answers -/

namespace Survey

open Problem

section

variable {α : Type} [Quantity α] {s : Survey α} {P : Nat → Prop} {t : RouteTrial α} {route : Route}
  {d : Destination α} {job r vehicle : Nat}

/-- On a plan that is up to date, every route is known. -/
theorem knows_of_upToDate (upToDate : s.plan.UpToDate s.problem) (lies : s.plan.pool.Lies P)
    (inside : ∀ place, P place → place < s.problem.points.size)
    (found : s.plan.routes[r]? = some route) : s.Knows P r route := by
  obtain ⟨_, current⟩ := upToDate r (List.getElem?_eq_some_iff.mp found).1
  cases found.symm.trans current.found
  refine ⟨found, current.drives, fun stop member => ?_, fun trip place unloads => ?_⟩
  · obtain ⟨here, answer⟩ := current.stopLocation member
    exact hasStop_of_stopLocation lies inside answer
  · obtain ⟨b, _, there⟩ :=
      (upToDate.agrees r).base_of_unloadLocation (Plan.visits_of_route found) unloads
    exact lies b place there

/-- A gap between known places makes an offer or none, unless the failure is excused. -/
theorem Knows.yields_offerAt (knows : s.Knows P t.route route) (guided : s.Guided P)
    (drives : t.vehicle ∈ s.problem.vehicles) (known : job < s.problem.destinations.size)
    (lies : d.location < s.problem.points.size) (routeCost : α) {gap : Gap}
    (between : gap.InRange s.problem) :
    s.problem.Yields (fun _ => True) (s.offerAt t route job d routeCost gap) := by
  have trial := knows.trialAt guided drives known between
  apply (Trial.yields_verdict guided.linked knows.found trial).bind
  intro verdict _ _
  cases verdict with
  | breakTrip => exact .ok trivial
  | continueScan => exact .ok trivial
  | fulfilled =>
      apply (Trial.yields_windowCost guided.linked knows.found trial _).bind
      intro windowCost _ _
      apply (yields_detourCost guided.linked drives between.previous lies between.next).bind
      intro detour _ _
      exact .ok trivial

/-- All offers of a route that is known can be listed, with any vehicle and departure. -/
theorem Knows.yields_offers (knows : s.Knows P r route) (guided : s.Guided P)
    (known : job < s.problem.destinations.size) (drives : vehicle < s.problem.vehicles.size)
    (departure : Instant) :
    s.problem.Yields (fun _ => True) (s.offers r job vehicle departure) := by
  have here : s.plan.route r = .ok route := Plan.route_eq_ok.mpr knows.found
  rw [offers, here]
  apply (yields_vehicle drives).bind
  intro v _ among
  apply (yields_destination guided.linked known).bind
  intro d _ lies
  apply (knows.yields_switchCost (t := ⟨r, vehicle, v, departure, _⟩) guided.linked among).bind
  intro routeCost _ _
  have within : s.problem.Yields (fun _ => True)
      (s.offersWithin ⟨r, vehicle, v, departure, .destination job⟩ route job d routeCost) := by
    refine Walk.yields_scan guided.linked among knows.stops (fun found gap between => ?_)
      (guided.linked.depots _ among) []
    apply (knows.yields_offerAt (t := ⟨r, vehicle, v, departure, _⟩) guided among known lies
      routeCost between).bind
    intro offer _ _
    exact .ok trivial
  apply within.bind
  intro offers _ _
  have beyond : s.problem.Yields (fun _ => True)
      (s.offerBeyond ⟨r, vehicle, v, departure, .destination job⟩ route job d routeCost) := by
    unfold offerBeyond
    split
    · split
      · exact knows.yields_openTrip (t := ⟨r, vehicle, v, departure, _⟩) guided among known lies
          routeCost none
      · exact .ok trivial
    · exact .ok trivial
  apply beyond.bind
  intro offer _ _
  exact .ok trivial

end

/-- On a plan that a refresh of all routes leaves alone, with bases where volumes are tracked and
other such places offered: for any route, job, vehicle, departure and bound, as long as the vehicle
may serve more destinations, all offers can be listed and an evaluation settles on the first of the
cheapest ones.  What fails is excused, and fails both ways. -/
theorem cheapest_eq_settle {parts : ProblemParts Rat} {s : Survey Rat} {r job vehicle : Nat}
    (built : parts.build = .ok s.problem) (fresh : s.plan.refreshRoutes s.problem = .ok s.plan)
    (tracks : s.plan.pool.Lies s.problem.Tracks)
    (limits : s.volumes.clear = (Volumes.ofSites s.problem.sites).clear)
    (tracked : s.OffersOnly s.problem.Tracks) (routed : r < s.plan.routes.length)
    (known : job < s.problem.destinations.size) (drives : vehicle < s.problem.vehicles.size)
    (few : ∀ route v, s.plan.routes[r]? = some route → s.problem.vehicle vehicle = .ok v →
      v.maximumDestinations.all (route.destinationCount < ·) = true)
    (departure : Instant) (bound : Bound Rat) :
    s.cheapest r job vehicle departure bound =
        s.offers r job vehicle departure >>= s.settle r bound ∧
      s.problem.Yields (fun _ => True) (s.offers r job vehicle departure) := by
  have linked := ProblemParts.linked_of_build built
  have inside (place : Nat) (here : s.problem.Tracks place) : place < s.problem.points.size :=
    here.lt_of_linked linked
  have guided : s.Guided s.problem.Tracks := by
    refine ⟨tracked, linked, inside, fun place here => ?_⟩
    rw [Volumes.isSome_tracked?_of_clear limits]
    exact here
  have upToDate := Plan.refreshRoutes_eq_self.mp fresh
  have knows := knows_of_upToDate upToDate tracks inside (List.getElem?_eq_getElem routed)
  exact ⟨cheapest_eq few, knows.yields_offers guided known drives departure⟩

/-- Default settings offer the unload sites, where volumes are tracked. -/
theorem offersOnly_forProblem (p : Problem Rat) (parameters : Parameters Rat) (plan : Plan Rat)
    (volumes : Volumes Rat) (allows : Bool) :
    ((Settings.forProblem p parameters).survey p plan volumes allows).OffersOnly p.Tracks := by
  refine ⟨fun query asks => ?_, fun _ _ _ _ _ => .ok trivial⟩
  have offers := (reliable_forProblem p parameters).yields_offers asks
  exact ⟨fun offered answer place member =>
    Volumes.tracks_ofSites p place (offers.answers offered answer place member), offers.fails⟩

/-- The second job needs a trip of its own, which costs two.  That is not less than two. -/
theorem cheapest_eq_settle_twoJobs :
    let settings := Settings.forProblem twoJobs .standard
    let operations : List (Operation Rat) := [.recreate settings, .ruin [1]]
    let volumes := Volumes.ofSites twoJobs.sites
    ∃ plan offer, Plan.reach twoJobs operations = .ok plan ∧
      plan.refreshRoutes twoJobs = .ok plan ∧ plan.pool.Lies twoJobs.Tracks ∧
      offer.cost = 2 ∧ offer.proposal.position = 2 ∧
      (settings.survey twoJobs plan volumes true).cheapest 0 1 0 ⟨0⟩ none = .ok (some offer) ∧
      (settings.survey twoJobs plan volumes true).cheapest 0 1 0 ⟨0⟩ (some 2) = .ok none := by
  intro settings operations volumes
  have refreshes : ∀ operation ∈ operations, operation.Refreshes := by
    simp [operations, Operation.Refreshes]
  have run : (Plan.reach twoJobs operations >>= fun plan =>
      plan.refreshRoutes twoJobs >>= fun fresh =>
      (settings.survey twoJobs plan volumes true).offers 0 1 0 ⟨0⟩ >>= fun offers =>
      .ok (decide (fresh = plan ∧ 0 < plan.routes.length ∧
          (settings.survey twoJobs plan volumes true).lacksBase 0 = false),
        offers.map fun offer => (offer.cost, offer.proposal.position))) = .ok (true, [(2, 2)]) := by
    decide +kernel
  simp only [bind_eq_ok, Except.ok.injEq, Prod.mk.injEq, decide_eq_true_eq] at run
  obtain ⟨_, reached, plan, fresh, offers, listed, ⟨rfl, routed, supplied⟩, costs⟩ := run
  obtain ⟨offer, rfl, cost, position⟩ :
      ∃ offer, offers = [offer] ∧ offer.cost = 2 ∧ offer.proposal.position = 2 := by
    cases offers with
    | nil => cases costs
    | cons offer rest =>
        simp only [List.map_cons, List.cons.injEq, List.map_eq_nil_iff, Prod.mk.injEq] at costs
        exact ⟨offer, by rw [costs.2], costs.1⟩
  have tracks : plan.pool.Lies twoJobs.Tracks := reach_tracks refreshes reached
  have few : ∀ route v, plan.routes[0]? = some route → twoJobs.vehicle 0 = .ok v →
      v.maximumDestinations.all (route.destinationCount < ·) = true := by
    intro route v _ driven
    cases driven
    rfl
  have served : 1 < twoJobs.destinations.size := by decide
  have drives : 0 < twoJobs.vehicles.size := by decide
  have settles (bound : Bound Rat) :
      (settings.survey twoJobs plan volumes true).cheapest 0 1 0 ⟨0⟩ bound =
        .ok (bound.cut Offer.cost (some offer)) := by
    have equal := (cheapest_eq_settle (s := settings.survey twoJobs plan volumes true)
      build_twoParts fresh tracks rfl (offersOnly_forProblem twoJobs .standard plan volumes true)
      routed served drives few ⟨0⟩ bound).1
    rw [equal, listed]
    exact settle_eq_ok supplied [offer]
  refine ⟨plan, offer, reached, fresh, tracks, cost, position, settles none, ?_⟩
  rw [settles, Bound.cut_some, Bound.admits_some, cost]
  rfl

end Survey

end Haulage

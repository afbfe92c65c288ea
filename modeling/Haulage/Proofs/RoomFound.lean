/-
Module: Haulage.Proofs.RoomFound
Purpose: Whether the room that spares a route a new trip is found.  The marks for a job look at every
  closed trip, be it idle, while a scan puts a job only into trips that serve one already.
Main exports: Survey.cheapest_eq_scanTrips, Survey.exists_gap_of_scanTrips,
  Work.Exact.room_of_fulfilled, Work.Exact.isSome_scanTrips_iff, session_findsRoom
-/
import Haulage.Proofs.Admission

namespace Haulage

open Attempt Plan Problem

/-! ### Scans -/

/-- A vehicle that keeps its route costs nothing more on the ways from the depot and back. -/
theorem RouteTrial.switchCost_own {α : Type} [Quantity α] {p : Problem α} {pool : BasePool}
    {t : RouteTrial α} {route : Route} (own : t.vehicleId = route.vehicle) :
    t.switchCost p pool route = .ok 0 := by
  have stays : t.switchesVehicle route = false := by simp [switchesVehicle, own]
  rw [switchCost]
  split
  · rw [stays]
    rfl
  · rfl

namespace Survey

section

variable {α : Type} [Quantity α] {s : Survey α} {t : RouteTrial α} {route : Route}
  {d : Destination α} {job r : Nat}

/-- Where no new trip is wanted, an evaluation with the vehicle of the route is a scan of its trips. -/
theorem cheapest_eq_scanTrips {v : Vehicle α} (found : s.plan.routes[r]? = some route)
    (drives : s.problem.vehicle route.vehicle = .ok v)
    (served : s.problem.destination job = .ok d)
    (few : v.maximumDestinations.all (route.destinationCount < ·) = true)
    (supplied : s.plan.ledger.needsBase r = false) (departure : Instant) (known : Bound α) :
    s.cheapest r job route.vehicle departure known =
      s.scanTrips ⟨r, route.vehicle, v, departure, .destination job⟩ route job d 0 known := by
  have within : RouteTrial.withinMaximum ⟨r, route.vehicle, v, departure, .destination job⟩ route =
      true := few
  have unwanted : (s.allowsNewTrips && s.plan.ledger.needsBase r) = false := by
    rw [supplied, Bool.and_false]
  have stays : RouteTrial.switchCost s.problem s.plan.pool
      ⟨r, route.vehicle, v, departure, .destination job⟩ route = .ok 0 :=
    RouteTrial.switchCost_own rfl
  rw [cheapest, Plan.route_eq_ok.mpr found]
  show (s.problem.vehicle route.vehicle >>= _) = _
  rw [drives]
  show (if _ then _ else _) = _
  rw [within, Bool.not_true, if_neg Bool.false_ne_true, served]
  show (RouteTrial.switchCost _ _ _ _ >>= _) = _
  rw [stays]
  show (s.scanTrips _ _ _ _ _ _ >>= _) = _
  simp only [unwanted]
  cases s.scanTrips ⟨r, route.vehicle, v, departure, .destination job⟩ route job d 0 known with
  | error e => rfl
  | ok best => rfl

end

variable {s : Survey Rat} {t : RouteTrial Rat} {route : Route} {d : Destination Rat} {job : Nat}
  {routeCost : Rat} {offer : Offer Rat}

/-- What a scan offers is a gap that all rules agree on. -/
theorem exists_gap_of_scanTrips
    (scanned : s.scanTrips t route job d routeCost none = .ok (some offer)) :
    ∃ before after gap, route.stops = before ++ after ∧ gap.Between before after ∧
      (s.trialAt t job gap).verdict s.problem s.plan s.volumes = .ok .fulfilled := by
  rw [scanTrips_eq] at scanned
  cases listed : s.offersWithin t route job d routeCost with
  | error e =>
      rw [listed] at scanned
      cases scanned
  | ok offers =>
      rw [listed] at scanned
      have least : offers.argmin Offer.cost = some offer := Except.ok.inj scanned
      obtain ⟨gaps, answers, walked, mapped, rfl⟩ := offersWithin_eq_ok.mp listed
      have among : some offer ∈ answers := List.reduceOption_mem_iff.mp (List.argmin_mem least)
      obtain ⟨gap, member, offered⟩ := mem_of_mapM_eq_ok mapped among
      obtain ⟨before, after, split, between⟩ := Walk.between_of_mem_gaps walked member
      refine ⟨before, after, gap, split, between, ?_⟩
      simp only [offerAt, bind_eq_ok] at offered
      obtain ⟨verdict, agreed, offered⟩ := offered
      cases verdict with
      | breakTrip | continueScan => cases offered
      | fulfilled => exact agreed

/-- On a plan that is up to date, whatever the settings, a scan does not fail but in a way that is
excused. -/
theorem yields_scanTrips (linked : s.problem.Linked) (upToDate : s.plan.UpToDate s.problem)
    (lies : s.plan.pool.Lies s.problem.Tracks)
    (tracked : ∀ location, s.problem.Tracks location →
      (s.volumes.tracked? location).isSome = true)
    (found : s.plan.routes[t.route]? = some route) (drives : t.vehicle ∈ s.problem.vehicles)
    (known : job < s.problem.destinations.size) (inside : d.location < s.problem.points.size)
    (routeCost : Rat) (bound : Bound Rat) :
    s.problem.Yields (fun _ => True) (s.scanTrips t route job d routeCost bound) := by
  -- A scan asks for no place to unload, so that it does not matter what is offered.
  let usual : Survey Rat :=
    { s with provider := .allSites s.problem, serviceTimes := .ofVehicle }
  have within (location : Nat) (here : s.problem.Tracks location) :
      location < s.problem.points.size := here.lt_of_linked linked
  have offers := offersOnly_forProblem s.problem .standard s.plan s.volumes true
  have guided : usual.Guided s.problem.Tracks :=
    ⟨⟨offers.offers, offers.times⟩, linked, within, tracked⟩
  have knows : usual.Knows s.problem.Tracks t.route route :=
    knows_of_upToDate (s := usual) upToDate lies within found
  exact knows.yields_scanTrips guided drives known inside routeCost bound

end Survey

variable {p : Problem Rat} {bases size job r : Nat} {w : Work Rat} {settings : Settings Rat}
  {route : Route} {v : Vehicle Rat} {d : Destination Rat} {start plan : Plan Rat}

namespace Work.Exact

section

variable (exact : w.Exact p bases)
  (tracked : ∀ b location, w.plan.pool.locationOf b = some location →
    (w.volumes.tracked? location).isSome = true)
include exact tracked

/-- Where all rules agree on a gap, its trip has room and serves a job already. -/
theorem room_of_fulfilled {allows : Bool} {t : RouteTrial Rat} {gap : Gap}
    {before after : List Stop} (found : w.plan.routes[t.route]? = some route)
    (served : p.destination job = .ok d) (split : route.stops = before ++ after)
    (between : gap.Between before after)
    (agreed : ((settings.survey p w.plan w.volumes allows).trialAt t job gap).verdict p w.plan
      w.volumes = .ok .fulfilled) :
    jobsOfTrip route.stops gap.trip ≠ [] ∧
      w.plan.RoomOn p t.vehicle route.stops d.demand gap.trip := by
  have visits := visits_of_route found
  obtain ⟨capacity, _⟩ := Trial.verdict_eq_fulfilled agreed
  have unfinished := (Trial.capacityVerdict_destination rfl capacity).1
  have followed : after ≠ [] := by
    rintro rfl
    exact unfinished between.next_eq
  obtain ⟨next, rest, rfl⟩ := List.exists_cons_of_ne_nil followed
  have inside : gap.position < route.length := by
    simp [Route.length, split, between.position_eq]
  have asked (location : Nat)
      (unloads : w.plan.ledger.unloadLocation? t.route gap.trip = some location) :
      ∃ takes, w.volumes.isLoadable location d.demand = .ok takes := by
    obtain ⟨b, _, there⟩ := (exact.agrees t.route).base_of_unloadLocation visits unloads
    exact Volumes.isLoadable_answers (tracked b location there) d.demand
  have allowed := (Trial.verdict_job rfl served found unfinished inside asked).1.mp agreed
  constructor
  · intro idle
    cases next with
    | destination other =>
        -- In front of a job the trip serves that job.
        rw [split, between.trip_eq, jobsOfTrip_append, jobsOfTrip_destination] at idle
        simp at idle
    | base b =>
        -- In front of a base the trip is not without a load.
        apply allowed.laden
        refine ⟨congrArg Waypoint.isBase between.next_eq, ?_⟩
        show (w.plan.ledger.load t.route gap.trip).isEmpty = true
        rw [(exact.agrees t.route).load_eq visits, idle]
        rfl
  · exact (exact.roomOn_iff tracked found t.vehicle d.demand gap.trip).mpr
      ⟨allowed.fits, allowed.loadable⟩

/-- A scan of a route makes an offer just where a trip has room that serves a job already. -/
theorem isSome_scanTrips_iff {allows : Bool} {t : RouteTrial Rat} {routeCost : Rat}
    {best : Option (Offer Rat)} (found : w.plan.routes[t.route]? = some route)
    (served : p.destination job = .ok d)
    (scanned : (settings.survey p w.plan w.volumes allows).scanTrips t route job d routeCost none =
      .ok best) :
    best.isSome = true ↔ ∃ trip, jobsOfTrip route.stops trip ≠ [] ∧
      w.plan.RoomOn p t.vehicle route.stops d.demand trip := by
  constructor
  · intro some
    obtain ⟨offer, rfl⟩ := Option.isSome_iff_exists.mp some
    obtain ⟨before, after, gap, split, between, agreed⟩ := Survey.exists_gap_of_scanTrips scanned
    exact ⟨gap.trip, exact.room_of_fulfilled tracked found served split between agreed⟩
  · rintro ⟨trip, serves, room⟩
    exact exact.scanTrips_finds tracked found served serves room scanned

end

/-- Where no new trip is wanted, the evaluation of a route makes an offer just where a trip has room
that serves a job already.  It does not fail but in a way that is excused. -/
theorem yields_cheapest (exact : w.Exact p bases) (linked : p.Linked)
    (upToDate : w.plan.UpToDate p) (lies : w.plan.pool.Lies p.Tracks)
    (tracked : ∀ location, p.Tracks location → (w.volumes.tracked? location).isSome = true)
    (prospect : w.plan.Prospect p job r route v d) (supplied : w.plan.ledger.needsBase r = false)
    (settings : Settings Rat) (allows : Bool) (departure : Instant) :
    p.Yields (fun offer => offer.isSome = true ↔ ∃ trip, jobsOfTrip route.stops trip ≠ [] ∧
        w.plan.RoomOn p v route.stops d.demand trip)
      ((settings.survey p w.plan w.volumes allows).cheapest r job route.vehicle departure none) := by
  rcases prospect with ⟨found, drives, served, few⟩
  rw [Survey.cheapest_eq_scanTrips found drives served few supplied]
  have known := (Array.getElem?_eq_some_iff.mp (orOutOfTable_eq_ok.mp served)).1
  have inside := (yields_destination linked known).answers d served
  have driven := (Array.getElem?_eq_some_iff.mp (orOutOfTable_eq_ok.mp drives)).1
  have scans := Survey.yields_scanTrips (s := settings.survey p w.plan w.volumes allows)
    (t := ⟨r, route.vehicle, v, departure, .destination job⟩) linked upToDate lies tracked found
    ((yields_vehicle driven).answers v drives) known inside 0 none
  refine ⟨fun best scanned => ?_, scans.fails⟩
  exact exact.isSome_scanTrips_iff (t := ⟨r, route.vehicle, v, departure, .destination job⟩)
    (fun b location there => tracked location (lies b location there)) found served scanned

end Work.Exact

/-! ### Histories -/

/-- After any history, on a plan that a refresh of all routes leaves alone and with the volumes counted
anew, all routes can be marked for a job that waits.  A route that may serve more destinations is
spared a new trip just where a closed trip has room.  An evaluation of that route makes an offer just
where a trip has room that serves a job already, so the room of an idle trip is not found.  It does
not fail but in a way that is excused. -/
theorem session_findsRoom {parts : ProblemParts Rat} (built : parts.build = .ok p)
    {operations : List (Operation Rat)} (begins : Plan.withPool p (.ofSize size) = .ok start)
    (limited : ∀ operation ∈ operations, operation.Limited p)
    (reached : session p operations start = .ok () plan)
    (fresh : plan.refreshRoutes p = .ok plan) :
    ∃ volumes, Volumes.rebuild plan (.ofSites p.sites) = .ok () volumes ∧
      ∀ job ∈ plan.unassigned, ∃ marked,
        Room.markFullRoutes p plan volumes job = .ok marked ∧
        ∀ (r : Nat) (route : Route) (v : Vehicle Rat), plan.routes[r]? = some route →
          p.vehicle route.vehicle = .ok v →
          v.maximumDestinations.all (route.destinationCount < ·) = true →
          let room := plan.RoomOn p v route.stops (p.demand job)
          (marked.ledger.needsBase r = false ↔ ∃ trip < basesIn route.stops, room trip) ∧
          ∀ (settings : Settings Rat) (allows : Bool) (departure : Instant),
            marked.ledger.needsBase r = false →
            p.Yields (fun offer => offer.isSome = true ↔
                ∃ trip, jobsOfTrip route.stops trip ≠ [] ∧ room trip)
              ((settings.survey p marked volumes allows).cheapest r job route.vehicle departure
                none) := by
  have linked := ProblemParts.linked_of_build built
  have lies := session_tracks limited (lies_withPool begins _) reached
  have conserved : Conserved p.destinations.size size plan := by
    have leaves := session_leaves (Conserved p.destinations.size size)
      (fun operation (_ : operation ∈ operations) _ kept => operation.conserves p kept)
      (withPool_conserves begins)
    rwa [reached] at leaves
  have upToDate := refreshRoutes_eq_self.mp fresh
  obtain ⟨volumes, counted, exact, tracked⟩ := rebuild_exact conserved upToDate.agrees lies
  refine ⟨volumes, counted, fun job waits => ?_⟩
  have known := conserved.unassigned_lt waits
  have served : p.destination job = .ok p.destinations[job] := orOutOfTable_getElem known
  have knows (r : Nat) (route : Route) (found : plan.routes[r]? = some route) :=
    Survey.knows_of_upToDate (P := p.Tracks)
      (s := (Settings.forProblem p .standard).survey p plan volumes true) upToDate lies
      (fun _ here => here.lt_of_linked linked) found
  obtain ⟨marked, marks⟩ := Room.markFullRoutes_answers known
    (fun r route found => (knows r route found).drives) fun r route found trip location unloads =>
      tracked location ((knows r route found).unloads trip location unloads)
  refine ⟨marked, marks, fun r route v found drives few => ?_⟩
  have prospect : plan.Prospect p job r route v p.destinations[job] := ⟨found, drives, served, few⟩
  rw [Problem.demand_eq served]
  constructor
  · exact exact.needsBase_eq_false_iff (fun b location there =>
      tracked location (lies b location there)) prospect marks
  · obtain ⟨ledger, rfl, same, enters⟩ := Room.markFullRoutes_eq_ok marks
    intro settings allows departure supplied
    exact (exact.marks same).yields_cheapest linked (upToDate.marks same enters) lies tracked
      (prospect.marks ledger) supplied settings allows departure

/-- With both jobs taken out, an idle trip is left that has room for either.  It spares the route a new
trip for the other job, and no offer is made. -/
theorem session_missesRoom_lightJob :
    let settings := Settings.forProblem lightJob .standard
    let operations : List (Operation Rat) :=
      [.recreate settings, .removeJob 1, .removeJob 0, .refreshRoute 0]
    ∃ plan volumes marked route v, Plan.reach lightJob operations = .ok plan ∧
      plan.refreshRoutes lightJob = .ok plan ∧
      Volumes.rebuild plan (.ofSites lightJob.sites) = .ok () volumes ∧ 1 ∈ plan.unassigned ∧
      Room.markFullRoutes lightJob plan volumes 1 = .ok marked ∧ plan.routes[0]? = some route ∧
      lightJob.vehicle route.vehicle = .ok v ∧ v.maximumDestinations = none ∧
      route.stops = [.base 0] ∧ marked.ledger.needsBase 0 = false ∧
      (settings.survey lightJob marked volumes true).cheapest 0 1 route.vehicle ⟨0⟩ none =
        .ok none := by
  intro settings operations
  have run : (Plan.reach lightJob operations >>= fun plan =>
      plan.refreshRoutes lightJob >>= fun fresh =>
      answer ((do
        Volumes.rebuild plan
        get) (Volumes.ofSites lightJob.sites)) >>= fun volumes =>
      Room.markFullRoutes lightJob plan volumes 1 >>= fun marked =>
      plan.route 0 >>= fun route =>
      (settings.survey lightJob marked volumes true).cheapest 0 1 0 ⟨0⟩ none >>= fun offer =>
      .ok (decide (fresh = plan ∧ 1 ∈ plan.unassigned ∧ route.stops = [.base 0] ∧
        route.vehicle = 0 ∧ marked.ledger.needsBase 0 = false ∧ offer.isNone = true))) =
      .ok true := by decide +kernel
  simp only [bind_eq_ok, answer_eq_ok, route_eq_ok, Except.ok.injEq, decide_eq_true_eq,
    Option.isNone_iff_eq_none] at run
  obtain ⟨_, reached, plan, fresh, volumes, ⟨_, both⟩, marked, marks, route, found, _, none, rfl,
    waits, stops, vehicle, supplied, rfl⟩ := run
  obtain ⟨_, _, counted, same⟩ := bind_answers.mp both
  cases same
  refine ⟨plan, volumes, marked, route, lightJob.vehicles[0], reached, fresh, counted, waits, marks,
    found, ?_, rfl, stops, supplied, ?_⟩
  · rw [vehicle]
    rfl
  · rw [vehicle]
    exact none

/-- The problem with the light job is a valid one. -/
theorem build_lightJob : lightJob.parts.build = .ok lightJob :=
  lightJob.build_parts (by decide +kernel) (by decide +kernel) (by decide +kernel)

/-- As long as the light job is on its trip, the other one joins it. -/
theorem session_findsRoom_lightJob :
    let settings := Settings.forProblem lightJob .standard
    let operations : List (Operation Rat) := [.recreate settings, .removeJob 1, .refreshRoute 0]
    (∀ operation ∈ operations, operation.Limited lightJob) ∧
      ∃ start plan volumes marked route offer, Plan.withPool lightJob (.ofSize 2) = .ok start ∧
        session lightJob operations start = .ok () plan ∧
        plan.refreshRoutes lightJob = .ok plan ∧
        Volumes.rebuild plan (.ofSites lightJob.sites) = .ok () volumes ∧ 1 ∈ plan.unassigned ∧
        Room.markFullRoutes lightJob plan volumes 1 = .ok marked ∧ plan.routes[0]? = some route ∧
        route.stops = [.destination 0, .base 0] ∧ marked.ledger.needsBase 0 = false ∧
        (settings.survey lightJob marked volumes true).cheapest 0 1 0 ⟨0⟩ none =
          .ok (some offer) := by
  intro settings operations
  have limited : ∀ operation ∈ operations, operation.Limited lightJob := by
    simp [operations, Operation.Limited]
  have run : (Plan.reach lightJob operations >>= fun plan =>
      plan.refreshRoutes lightJob >>= fun fresh =>
      answer ((do
        Volumes.rebuild plan
        get) (Volumes.ofSites lightJob.sites)) >>= fun volumes =>
      Room.markFullRoutes lightJob plan volumes 1 >>= fun marked =>
      plan.route 0 >>= fun route =>
      (settings.survey lightJob marked volumes true).cheapest 0 1 0 ⟨0⟩ none >>= fun _ =>
      .ok (decide (fresh = plan ∧ 1 ∈ plan.unassigned ∧
        route.stops = [.destination 0, .base 0] ∧ route.vehicle = 0))) = .ok true := by
    decide +kernel
  simp only [bind_eq_ok, answer_eq_ok, route_eq_ok, Except.ok.injEq, decide_eq_true_eq] at run
  obtain ⟨_, reached, plan, fresh, volumes, ⟨_, both⟩, marked, marks, route, found, offer, answers,
    rfl, waits, stops, vehicle⟩ := run
  obtain ⟨_, _, counted, same⟩ := bind_answers.mp both
  cases same
  obtain ⟨start, begins, done⟩ := reach_eq_ok.mp reached
  have begins : Plan.withPool lightJob (.ofSize 2) = .ok start := begins
  obtain ⟨again, countedAgain, each⟩ := session_findsRoom build_lightJob begins limited done fresh
  cases counted.symm.trans countedAgain
  obtain ⟨markedAgain, marksAgain, tells⟩ := each 1 waits
  cases marks.symm.trans marksAgain
  obtain ⟨spared, finds⟩ := tells 0 route lightJob.vehicles[0] found (by rw [vehicle]; rfl) rfl
  have room : plan.RoomOn lightJob lightJob.vehicles[0] route.stops (lightJob.demand 1) 0 := by
    refine ⟨?_, fun location _ capacity limit => ?_⟩
    · rw [stops]
      decide +kernel
    · rw [Problem.dailyCapacity_eq_none (by simp [lightJob, twoJobs])] at limit
      cases limit
  have supplied := spared.mpr ⟨0, by simp [stops], room⟩
  rw [vehicle] at finds
  have made := ((finds settings true ⟨0⟩ supplied).answers offer answers).mpr
    ⟨0, by simp [stops, jobsOfTrip_destination], room⟩
  obtain ⟨offer, rfl⟩ := Option.isSome_iff_exists.mp made
  exact ⟨limited, start, plan, volumes, marked, route, offer, begins, done, fresh, counted, waits,
    marks, found, stops, supplied, answers⟩

end Haulage

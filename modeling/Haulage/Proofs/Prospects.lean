/-
Module: Haulage.Proofs.Prospects
Purpose: Which routes can take a job, as it is read off the plan alone.  A route has a closed trip
  with room, at the vehicle and at the site, or a trip could be opened at its end.  Evaluations make
  an offer where this is so and nowhere else.
Main exports: Plan.Absorbs, Plan.HasRoom, Plan.TakesTrip, Plan.CanTake, Work.Poised,
  Work.Poised.canTake_of_offer, Work.Poised.not_canTake
-/
import Haulage.Proofs.ExactVolumes
import Haulage.Proofs.Finds
import Haulage.Proofs.Unfailing

namespace Haulage

open Attempt Plan Problem

section

variable {α : Type} [Quantity α]

/-! ### What a route can take -/

/-- Where the closed trips of a route unload, with the number of trips at each location. -/
def BasePool.unloadCounts (pool : BasePool) (stops : List Stop) : List LocationCount :=
  ((closedTrips stops).filterMap fun t => pool.locationOf t.base).foldl
    (fun counts location => countTrip location counts) []

/-- The daily capacity of a location, if there is one, leaves room for a load besides all that the
closed trips unload there. -/
def Plan.Absorbs (p : Problem α) (plan : Plan α) (location : Nat) (load : Load α) : Prop :=
  ∀ capacity, p.dailyCapacity location = some capacity →
    (p.demandOf ((plan.tripsTo location).flatMap (·.jobs)) + load).fits capacity = true

/-- A closed trip takes a demand in addition, and so does the location where it unloads. -/
def Plan.HasRoom (p : Problem α) (plan : Plan α) (v : Vehicle α) (stops : List Stop)
    (demand : Load α) (trip : Nat) : Prop :=
  ∃ t location, (closedTrips stops)[trip]? = some t ∧
    plan.pool.locationOf t.base = some location ∧
    (p.demandOf t.jobs + demand).fits (v.tripCapacity trip) = true ∧
    plan.Absorbs p location demand

/-- A trip, be it closed or not, takes a demand in addition, and so does the location where it
unloads, if there is one. -/
def Plan.RoomOn (p : Problem α) (plan : Plan α) (v : Vehicle α) (stops : List Stop)
    (demand : Load α) (trip : Nat) : Prop :=
  (p.demandOf (jobsOfTrip stops trip) + demand).fits (v.tripCapacity trip) = true ∧
    ∀ location, plan.pool.placeOf stops trip = some location → plan.Absorbs p location demand

/-- The demand of a job makes a trip behind the last one, and some location that is offered for its
base absorbs it. -/
def Plan.TakesTrip (p : Problem α) (plan : Plan α) (provider : LocationProvider α) (v : Vehicle α)
    (stops : List Stop) (d : Destination α) : Prop :=
  d.demand.fits (v.tripCapacity (basesIn stops)) = true ∧
    ∃ offered location,
      provider.offers (tailQuery v stops (plan.pool.unloadCounts stops) d) = .ok offered ∧
      location ∈ offered ∧ plan.Absorbs p location d.demand

/-- A route that has a destination left for a job, with its vehicle. -/
structure Plan.Prospect (p : Problem α) (plan : Plan α) (job r : Nat) (route : Route)
    (v : Vehicle α) (d : Destination α) : Prop where
  found : plan.routes[r]? = some route
  drives : p.vehicle route.vehicle = .ok v
  served : p.destination job = .ok d
  few : v.maximumDestinations.all (route.destinationCount < ·) = true

/-- A route can take a job on a trip that is there. -/
def Plan.CanJoin (p : Problem α) (plan : Plan α) (job r : Nat) : Prop :=
  ∃ route v d, plan.Prospect p job r route v d ∧ ∃ trip, plan.HasRoom p v route.stops d.demand trip

/-- A route can take a job: on a trip that is there or, where no trip has room, on one that is
opened. -/
def Plan.CanTake (p : Problem α) (plan : Plan α) (provider : LocationProvider α) (job r : Nat) :
    Prop :=
  ∃ route v d, plan.Prospect p job r route v d ∧
    ((∃ trip, plan.HasRoom p v route.stops d.demand trip) ∨
      (¬∃ trip, plan.HasRoom p v route.stops d.demand trip) ∧
        plan.TakesTrip p provider v route.stops d)

theorem Plan.hasRoom_iff {p : Problem α} {plan : Plan α} {v : Vehicle α} {stops : List Stop}
    {demand : Load α} {trip : Nat} : plan.HasRoom p v stops demand trip ↔
      (plan.pool.placeOf stops trip).isSome = true ∧ plan.RoomOn p v stops demand trip := by
  rw [HasRoom, RoomOn, BasePool.placeOf]
  cases found : (closedTrips stops)[trip]? with
  | none => simp
  | some t =>
      rw [jobsOfTrip_closed found]
      cases lies : plan.pool.locationOf t.base with
      | none => simp [lies]
      | some location => simp [lies]

theorem Plan.HasRoom.lt_basesIn {p : Problem α} {plan : Plan α} {v : Vehicle α} {stops : List Stop}
    {demand : Load α} {trip : Nat} (room : plan.HasRoom p v stops demand trip) :
    trip < basesIn stops := by
  obtain ⟨_, _, there, _⟩ := room
  rw [← length_closedTrips]
  exact (List.getElem?_eq_some_iff.mp there).1

omit [Quantity α] in
theorem Plan.Prospect.unique {p : Problem α} {plan : Plan α} {job r : Nat} {route other : Route}
    {v w : Vehicle α} {d e : Destination α} (prospect : plan.Prospect p job r route v d)
    (again : plan.Prospect p job r other w e) : other = route ∧ w = v ∧ e = d := by
  cases prospect.found.symm.trans again.found
  cases prospect.drives.symm.trans again.drives
  cases prospect.served.symm.trans again.served
  exact ⟨rfl, rfl, rfl⟩

omit [Quantity α] in
/-- The ledger does not matter for what a route can take. -/
theorem Plan.Prospect.marks {p : Problem α} {plan : Plan α} {job r : Nat} {route : Route}
    {v : Vehicle α} {d : Destination α} (ledger : Ledger α)
    (prospect : plan.Prospect p job r route v d) :
    Plan.Prospect p { plan with ledger := ledger } job r route v d :=
  ⟨prospect.found, prospect.drives, prospect.served, prospect.few⟩

theorem Plan.canTake_marks {p : Problem α} {plan : Plan α} {provider : LocationProvider α}
    {job r : Nat} (ledger : Ledger α) :
    Plan.CanTake p { plan with ledger := ledger } provider job r ↔
      plan.CanTake p provider job r := by
  constructor
  · rintro ⟨route, v, d, prospect, takes⟩
    exact ⟨route, v, d, prospect.marks plan.ledger, takes⟩
  · rintro ⟨route, v, d, prospect, takes⟩
    exact ⟨route, v, d, prospect.marks ledger, takes⟩

theorem Plan.CanJoin.marks {p : Problem α} {plan : Plan α} {job r : Nat} (ledger : Ledger α)
    (joins : plan.CanJoin p job r) : Plan.CanJoin p { plan with ledger := ledger } job r := by
  obtain ⟨route, v, d, prospect, room⟩ := joins
  exact ⟨route, v, d, prospect.marks ledger, room⟩

end

/-! ### Plans that are poised for a job -/

variable {p : Problem Rat} {bases : Nat} {w : Work Rat} {settings : Settings Rat}
  {job r : Nat} {route : Route} {v : Vehicle Rat} {d : Destination Rat}

/-- A plan on which a pass cannot go wrong, with volumes that tell the truth, on which every job that
is served is on a closed trip. -/
structure Work.Poised (p : Problem Rat) (bases : Nat) (w : Work Rat) : Prop where
  ready : w.Ready p bases
  exact : w.Exact p bases
  closed : ∀ r stops, w.plan.Visits r stops → openJobs stops = []

theorem Load.empty_add (a : Load Rat) : Load.empty + a = a := by
  show Load.mk (a.amounts.map fun x => 0 + x) = a
  simp

/-- Volumes that are those of the closed trips tell whether a location absorbs a load. -/
theorem Volumes.Counts.isLoadable_iff {volumes : Volumes Rat} {plan : Plan Rat}
    (counts : volumes.Counts (plan.unloads p)) (follows : volumes.Follows p) {location : Nat}
    {load : Load Rat} (tracked : (volumes.tracked? location).isSome = true) :
    volumes.isLoadable location load = .ok true ↔ plan.Absorbs p location load := by
  obtain ⟨e, found⟩ := Option.isSome_iff_exists.mp tracked
  have capacity := follows.capacity_eq location e found
  have volume (i : Nat) : e.volume.get i =
      (p.demandOf ((plan.tripsTo location).flatMap (·.jobs))).get i := by
    rw [get_demandOf_tripsTo, ← counts.amounts, Volumes.volumeAt, found]
    rfl
  simp only [Volumes.isLoadable_iff_get found, capacity, Plan.Absorbs, Load.fits_iff_get,
    Load.get_add, volume]

theorem Work.Exact.isLoadable_iff (exact : w.Exact p bases) {location : Nat} {load : Load Rat}
    (tracked : (w.volumes.tracked? location).isSome = true) :
    w.volumes.isLoadable location load = .ok true ↔ w.plan.Absorbs p location load :=
  exact.counts.isLoadable_iff exact.follows tracked

/-- Where the ledger agrees with a route, it knows where the trips unload. -/
theorem Plan.Agrees.locationCounts_eq {plan : Plan Rat} (agrees : plan.Agrees p r)
    (found : plan.routes[r]? = some route) :
    locationCounts plan.ledger r = plan.pool.unloadCounts route.stops := by
  rw [locationCounts, agrees.tripCount_eq (visits_of_route found), ← length_closedTrips,
    BasePool.unloadCounts]
  congr 1
  apply filterMap_range_eq
  intro k t there
  rw [Ledger.unloadLocation?, agrees.trip_eq (visits_of_route found) there]

namespace Work.Exact

theorem marks {ledger : Ledger Rat} (exact : w.Exact p bases)
    (same : SameMarks ledger w.plan.ledger) :
    Work.Exact p bases { w with plan := { w.plan with ledger := ledger } } :=
  ⟨exact.conserved.congr rfl rfl rfl, fun r => same.agrees (exact.agrees r), exact.follows,
    exact.counts⟩

section

variable (exact : w.Exact p bases)
  (tracked : ∀ b location, w.plan.pool.locationOf b = some location →
    (w.volumes.tracked? location).isSome = true)
include exact tracked

/-- Ledger and volumes tell whether a trip has room. -/
theorem roomOn_iff (found : w.plan.routes[r]? = some route) (v : Vehicle Rat) (demand : Load Rat)
    (k : Nat) : w.plan.RoomOn p v route.stops demand k ↔
      (w.plan.ledger.load r k + demand).fits (v.tripCapacity k) = true ∧
      ∀ location, w.plan.ledger.unloadLocation? r k = some location →
        w.volumes.isLoadable location demand = .ok true := by
  have visits := visits_of_route found
  rw [(exact.agrees r).load_eq visits, (exact.agrees r).unloadLocation_eq visits, RoomOn]
  refine and_congr_right fun _ => forall_congr' fun location => imp_congr_right fun lies => ?_
  obtain ⟨t, _, there⟩ := Option.bind_eq_some_iff.mp lies
  exact (exact.isLoadable_iff (tracked t.base location there)).symm

/-- A route is full where no closed trip has room, whether or not it serves a job. -/
theorem isFull_eq_ok (prospect : w.plan.Prospect p job r route v d) {full : Bool}
    (done : Room.isFull p w.plan w.volumes job r = .ok full) :
    full = false ↔ ∃ trip < basesIn route.stops, w.plan.RoomOn p v route.stops d.demand trip := by
  have found := prospect.found
  have visits := visits_of_route found
  simp only [Room.isFull, bind_eq_ok, route_eq_ok] at done
  rcases done with ⟨_, served, other, there, _, drives, done⟩
  cases found.symm.trans there
  cases prospect.drives.symm.trans drives
  cases prospect.served.symm.trans served
  rw [Room.isFullFor_eq_ok done, (exact.agrees r).tripCount_eq visits]
  simp only [List.mem_range]
  refine exists_congr fun trip => and_congr_right fun inside => ?_
  -- Every closed trip has a load in the ledger.
  rw [← length_closedTrips] at inside
  have entry := (exact.agrees r).trip_eq visits (List.getElem?_eq_getElem inside)
  have loaded : w.plan.ledger.load? r trip =
      some (p.demandOf (closedTrips route.stops)[trip].jobs) := by
    rw [Ledger.load?, entry]
  rw [exact.roomOn_iff tracked found, Ledger.load, loaded]
  simp

/-- After marking, the ledger says of each route that can serve the job whether it is full. -/
theorem needsBase_eq_false_iff (prospect : w.plan.Prospect p job r route v d) {marked : Plan Rat}
    (done : Room.markFullRoutes p w.plan w.volumes job = .ok marked) :
    marked.ledger.needsBase r = false ↔
      ∃ trip < basesIn route.stops, w.plan.RoomOn p v route.stops d.demand trip := by
  have among : r ∈ w.plan.routeIds :=
    List.mem_range.mpr (List.getElem?_eq_some_iff.mp prospect.found).1
  obtain ⟨full, asked, noted⟩ := Room.needsBase_of_marked done among
  rw [noted]
  exact exact.isFull_eq_ok tracked prospect asked

/-- A scan of a route makes an offer where a trip that serves a job has room. -/
theorem scanTrips_finds {allows : Bool} {t : RouteTrial Rat} {routeCost : Rat}
    {best : Option (Offer Rat)} (found : w.plan.routes[t.route]? = some route)
    (served : p.destination job = .ok d) {trip : Nat} (serves : jobsOfTrip route.stops trip ≠ [])
    (room : w.plan.RoomOn p t.vehicle route.stops d.demand trip)
    (scanned : (settings.survey p w.plan w.volumes allows).scanTrips t route job d routeCost none =
      .ok best) : best.isSome = true := by
  obtain ⟨front, first, rest, split, number, begins⟩ := begins_of_jobsOfTrip serves
  obtain ⟨fits, takes⟩ := (exact.roomOn_iff tracked found t.vehicle d.demand trip).mp room
  rw [← number] at fits takes
  exact Survey.scanTrips_finds (s := settings.survey p w.plan w.volumes allows) split begins served
    found fits takes scanned

end

end Work.Exact

namespace Work.Poised

theorem marks {ledger : Ledger Rat} (poised : w.Poised p bases)
    (same : SameMarks ledger w.plan.ledger) :
    Work.Poised p bases { w with plan := { w.plan with ledger := ledger } } :=
  ⟨poised.ready.marks same, poised.exact.marks same, poised.closed⟩

theorem tracked (poised : w.Poised p bases) (b location : Nat)
    (lies : w.plan.pool.locationOf b = some location) :
    (w.volumes.tracked? location).isSome = true :=
  poised.ready.tracks location (poised.ready.standing.inRange.sited b location lies)

/-- The volumes tell whether a site absorbs a load. -/
theorem isLoadable_iff (poised : w.Poised p bases) {location : Nat} {load : Load Rat}
    (site : location ∈ p.unloadLocations) :
    w.volumes.isLoadable location load = .ok true ↔ w.plan.Absorbs p location load :=
  poised.exact.isLoadable_iff (poised.ready.tracks location site)

/-- A closed trip serves a job and unloads somewhere. -/
theorem closedTrip (poised : w.Poised p bases) (found : w.plan.routes[r]? = some route) {k : Nat}
    (inside : k < basesIn route.stops) :
    ∃ t location, (closedTrips route.stops)[k]? = some t ∧ t.jobs ≠ [] ∧
      w.plan.pool.locationOf t.base = some location := by
  rw [← length_closedTrips] at inside
  have member := List.getElem_mem inside
  have shape := poised.ready.standing.routes r _ (visits_of_route found)
  obtain ⟨location, lies⟩ := shape.located _ (stops_of_mem_closedTrips member).1
  exact ⟨_, location, List.getElem?_eq_getElem inside, shape.serves _ member, lies⟩

/-- Every closed trip unloads somewhere, so nothing else is asked of one that has room. -/
theorem hasRoom_iff (poised : w.Poised p bases) (found : w.plan.routes[r]? = some route) {k : Nat}
    (inside : k < basesIn route.stops) (demand : Load Rat) :
    w.plan.HasRoom p v route.stops demand k ↔ w.plan.RoomOn p v route.stops demand k := by
  obtain ⟨t, location, there, _, lies⟩ := poised.closedTrip found inside
  have place : w.plan.pool.placeOf route.stops k = some location := by
    rw [BasePool.placeOf, there]
    exact lies
  rw [Plan.hasRoom_iff, place]
  simp

/-- Some trip has room if a closed one has. -/
theorem exists_hasRoom_iff (poised : w.Poised p bases) (found : w.plan.routes[r]? = some route)
    (v : Vehicle Rat) (demand : Load Rat) :
    (∃ trip, w.plan.HasRoom p v route.stops demand trip) ↔
      ∃ trip < basesIn route.stops, w.plan.RoomOn p v route.stops demand trip := by
  refine exists_congr fun trip => ⟨fun room => ?_, ?_⟩
  · exact ⟨room.lt_basesIn, (poised.hasRoom_iff found room.lt_basesIn demand).mp room⟩
  · rintro ⟨inside, room⟩
    exact (poised.hasRoom_iff found inside demand).mpr room

end Work.Poised

/-- A ledger that says of each route that can serve a job whether it needs a new trip for it. -/
def Plan.Marked (p : Problem Rat) (plan : Plan Rat) (job : Nat) : Prop :=
  ∀ r route v d, plan.Prospect p job r route v d →
    (plan.ledger.needsBase r = true ↔ ¬∃ trip, plan.HasRoom p v route.stops d.demand trip)

theorem Work.Poised.marked (poised : w.Poised p bases) {marked : Plan Rat}
    (done : Room.markFullRoutes p w.plan w.volumes job = .ok marked) : marked.Marked p job := by
  intro r route v d prospect
  obtain ⟨ledger, rfl, _⟩ := Room.markFullRoutes_eq_ok done
  have here : w.plan.Prospect p job r route v d := prospect.marks w.plan.ledger
  have needs := poised.exact.needsBase_eq_false_iff poised.tracked here done
  rw [← poised.exists_hasRoom_iff here.found v d.demand] at needs
  rw [← Bool.not_eq_false]
  exact not_congr needs

/-! ### Evaluations -/

/-- Where no job is left behind the last base, a base follows wherever a stop does. -/
theorem basesIn_lt_of_closed {before after : List Stop} (closed : openJobs (before ++ after) = [])
    (followed : after ≠ []) : basesIn before < basesIn (before ++ after) := by
  obtain ⟨lead, rfl | ⟨b, rest, rfl⟩⟩ := exists_lead after
  · rw [openJobs_append, tripsOf_destinations, List.append_eq_nil_iff] at closed
    rw [closed.2] at followed
    exact absurd rfl followed
  · simp only [basesIn_append, basesIn_base]
    omega

namespace Work.Poised

/-- A trip that a job may join has room. -/
theorem hasRoom_of_joins (poised : w.Poised p bases) {q : Proposal} {before after : List Stop}
    (found : w.plan.routes[q.route]? = some route)
    (joins : JoinsTrip w.plan w.volumes route v job d.demand before after q) :
    w.plan.HasRoom p v route.stops d.demand q.trip := by
  have closed := poised.closed _ _ (visits_of_route found)
  have inside : q.trip < basesIn route.stops := by
    rw [joins.stops_eq] at closed ⊢
    rw [joins.trip_eq]
    exact basesIn_lt_of_closed closed joins.followed
  exact (poised.hasRoom_iff found inside d.demand).mpr
    ((poised.exact.roomOn_iff poised.tracked found v d.demand q.trip).mpr
      ⟨joins.fits, joins.loadable⟩)

theorem locationCounts_eq (poised : w.Poised p bases) (found : w.plan.routes[r]? = some route) :
    locationCounts w.plan.ledger r = w.plan.pool.unloadCounts route.stops :=
  (poised.ready.standing.agrees r).locationCounts_eq found

/-- At the end of a route nothing is carried. -/
theorem idle (poised : w.Poised p bases) (found : w.plan.routes[r]? = some route)
    (demand : Load Rat) : w.plan.ledger.load r (basesIn route.stops) + demand = demand := by
  rw [(poised.ready.standing.agrees r).load_eq (visits_of_route found), jobsOfTrip_open,
    poised.closed _ _ (visits_of_route found), Problem.demandOf_nil, Load.empty_add]

section

variable {allows : Bool} {t : RouteTrial Rat} {routeCost : Rat} {known : Bound Rat} {base : Nat}
  {best opened : Option (Offer Rat)} {offer : Offer Rat}

theorem scanTrips_finds (poised : w.Poised p bases)
    (prospect : w.plan.Prospect p job t.route route t.vehicle d) {trip : Nat}
    (room : w.plan.HasRoom p t.vehicle route.stops d.demand trip)
    (scanned : (settings.survey p w.plan w.volumes allows).scanTrips t route job d routeCost none =
      .ok best) : best.isSome = true := by
  have inside := room.lt_basesIn
  obtain ⟨_, _, there, serves, _⟩ := poised.closedTrip prospect.found inside
  exact poised.exact.scanTrips_finds poised.tracked prospect.found prospect.served
    (by rwa [jobsOfTrip_closed there])
    ((poised.hasRoom_iff prospect.found inside d.demand).mp room) scanned

/-- A trip that is opened is one that could be. -/
theorem takesTrip_of_opened (poised : w.Poised p bases) (reliable : settings.Reliable p)
    (prospect : w.plan.Prospect p job t.route route t.vehicle d) (own : t.vehicleId = route.vehicle)
    (lowest : w.plan.pool.lowestFree? = some base)
    (done : (settings.survey p w.plan w.volumes allows).openTrip t route job d base routeCost known =
      .ok (some offer)) :
    w.plan.TakesTrip p settings.provider t.vehicle route.stops d := by
  have found := prospect.found
  have idle := poised.idle found d.demand
  obtain ⟨same, _, _, opens⟩ := Survey.openTrip_opens own prospect.served lowest done
  have fits : (w.plan.ledger.load offer.proposal.route offer.proposal.trip + d.demand).fits
      (t.vehicle.tripCapacity offer.proposal.trip) = true := opens.fits
  rw [opens.trip_eq, same] at fits
  obtain ⟨chosen, choice, some⟩ :=
    Survey.openTrip_asks (s := settings.survey p w.plan w.volumes allows) idle done
  obtain ⟨place, rfl⟩ := Option.isSome_iff_exists.mp (some rfl)
  obtain ⟨offered, offers, among, takes⟩ := cheapestLoadable_eq_some choice
  have site := reliable.sites place ⟨_, offered, offers, among⟩
  have counts := poised.locationCounts_eq found
  constructor
  · rwa [idle] at fits
  · refine ⟨offered, place, ?_, among, (poised.isLoadable_iff site).mp takes⟩
    rw [← counts]
    exact offers

/-- Where a trip could be opened, one is. -/
theorem openTrip_finds (poised : w.Poised p bases) (reliable : settings.Reliable p)
    (prospect : w.plan.Prospect p job t.route route t.vehicle d)
    (takes : w.plan.TakesTrip p settings.provider t.vehicle route.stops d)
    (done : (settings.survey p w.plan w.volumes allows).openTrip t route job d base routeCost none =
      .ok opened) : opened.isSome = true := by
  have found := prospect.found
  obtain ⟨fits, offered, place, offers, among, absorbs⟩ := takes
  have site := reliable.sites place ⟨_, offered, offers, among⟩
  rw [← poised.locationCounts_eq found] at offers
  exact Survey.openTrip_finds (s := settings.survey p w.plan w.volumes allows) prospect.served found
    (poised.idle found d.demand) fits offers among ((poised.isLoadable_iff site).mpr absorbs) done

/-- A route makes an offer only where it can take the job.  Where the job can join a trip, none is
opened. -/
theorem canTake_of_offer (poised : w.Poised p bases) (marked : w.plan.Marked p job)
    (reliable : settings.Reliable p)
    (done : (settings.survey p w.plan w.volumes allows).cheapestOnRoute job known r =
      .ok (some offer)) :
    offer.proposal.route = r ∧ w.plan.CanTake p settings.provider job r ∧
      (w.plan.CanJoin p job r → ∃ route v d before after, w.plan.routes[r]? = some route ∧
        JoinsTrip w.plan w.volumes route v job d before after offer.proposal) := by
  obtain ⟨same, route, v, d, found, drives, served, few, _⟩ := Survey.cheapestOnRoute_serves done
  rw [same] at found
  have prospect : w.plan.Prospect p job r route v d := ⟨found, drives, served, few⟩
  obtain ⟨departure, evaluates⟩ := Survey.cheapestOnRoute_evaluates found drives served few done
  have joins {bound : Bound Rat} {cost : Rat} {offer : Offer Rat}
      (scanned : (settings.survey p w.plan w.volumes allows).scanTrips
        ⟨r, route.vehicle, v, departure, .destination job⟩ route job d cost bound =
          .ok (some offer)) :
      (∃ trip, w.plan.HasRoom p v route.stops d.demand trip) ∧ ∃ before after,
        JoinsTrip w.plan w.volumes route v job d.demand before after offer.proposal := by
    obtain ⟨own, before, after, joins⟩ := Survey.scanTrips_joins rfl served scanned
    exact ⟨⟨_, poised.hasRoom_of_joins (own ▸ found) joins⟩, before, after, joins⟩
  refine ⟨same, ?_⟩
  generalize answer : some offer = result at evaluates
  cases evaluates with
  | within scanned _ =>
      subst answer
      obtain ⟨room, before, after, joined⟩ := joins scanned
      exact ⟨⟨route, v, d, prospect, .inl room⟩,
        fun _ => ⟨route, v, d.demand, before, after, found, joined⟩⟩
  | @opening cost best opened base scanned needed lowest opens =>
      -- No trip has room, so the scan found none, and the offer is that of the new trip.
      have full := (marked r route v d prospect).mp needed
      cases best with
      | some other => exact absurd (joins scanned).1 full
      | none =>
          rw [Option.or_none] at answer
          subst answer
          have takes := poised.takesTrip_of_opened reliable prospect rfl lowest opens
          refine ⟨⟨route, v, d, prospect, .inr ⟨full, takes⟩⟩, ?_⟩
          rintro ⟨_, _, _, again, room⟩
          obtain ⟨rfl, rfl, rfl⟩ := prospect.unique again
          exact absurd room full

/-- A route that makes no offer cannot take the job. -/
theorem not_canTake (poised : w.Poised p bases) (marked : w.plan.Marked p job)
    (reliable : settings.Reliable p)
    (done : (settings.survey p w.plan w.volumes true).cheapestOnRoute job none r = .ok none) :
    ¬w.plan.CanTake p settings.provider job r := by
  rintro ⟨route, v, d, prospect, takes⟩
  obtain ⟨departure, evaluates⟩ := Survey.cheapestOnRoute_evaluates prospect.found prospect.drives
    prospect.served prospect.few done
  have needs := marked r route v d prospect
  generalize answer : (none : Option (Offer Rat)) = result at evaluates
  cases evaluates with
  | within scanned settled =>
      subst answer
      rcases settled with found | idle
      · cases found
      · have idle : w.plan.ledger.needsBase r = false := idle
        have room : ∃ trip, w.plan.HasRoom p v route.stops d.demand trip := by
          by_contra full
          cases idle.symm.trans (needs.mpr full)
        obtain ⟨trip, room⟩ := room
        cases poised.scanTrips_finds prospect room scanned
  | @opening cost best opened base scanned needed lowest opens =>
      obtain ⟨rfl, rfl⟩ := Option.or_eq_none_iff.mp answer.symm
      have full := needs.mp needed
      rcases takes with room | ⟨_, takes⟩
      · exact full room
      · cases poised.openTrip_finds reliable prospect takes opens

end

end Work.Poised

end Haulage

/-
Module: Haulage.Proofs.Account
Purpose: What is told about a plan adds up.  Every destination is told about once, a stop is told to
  be on the trip with the number of bases before it, and a base to unload what the destinations of
  its trip ask for.
Main exports: StopReport.Recounts, RouteReport.Accounts, SolutionReport.Accounts,
  SolutionReport.accounts_of_ofPlan, SolutionReport.ofPlan_answers, session_accounts
-/
import Haulage.Proofs.Standing
import Haulage.Proofs.Tracked
import Haulage.Proofs.TravelRows
import Haulage.Proofs.UnfailingSessions
import Haulage.Report.Solution

namespace Haulage

variable {α : Type} [Quantity α]

open Attempt Plan

/-! ### What is told about a stop -/

namespace StopReport

/-- The trip that a stop is told to be on. -/
def trip : StopReport α → Nat
  | .destination _ _ trip _ _ _ => trip
  | .base _ _ trip _ _ _ => trip

/-- The destination that is told about, by name and location. -/
def destination? : StopReport α → Option (String × Nat)
  | .destination id location _ _ _ _ => some (id, location)
  | .base _ _ _ _ _ _ => none

/-- The load that a base is told to unload. -/
def load? : StopReport α → Option (List α)
  | .destination _ _ _ _ _ _ => none
  | .base _ _ _ _ _ load => some load

/-- Whether the stop is a base. -/
def isBase (told : StopReport α) : Bool := !told.isDestination

/-- What is told is about a stop: it has the name and the place of the destination, or of the
base. -/
inductive Tells (p : Problem α) (pool : BasePool) : Stop → StopReport α → Prop
  | destination {job : Nat} {d : Destination α} (found : p.destination job = .ok d) (trip : Nat)
      (arrival departure : Instant) (waiting : Duration) :
      Tells p pool (.destination job) (.destination d.id d.location trip arrival departure waiting)
  | base {b : Nat} {base : Base} (found : pool.base b = .ok base) (trip : Nat)
      (arrival departure : Instant) (load : List α) :
      Tells p pool (.base b) (.base base.id base.location trip arrival departure load)

/-- The jobs among some stops that are told to be on a trip. -/
def servedOn (trip : Nat) (stops : List Stop) (told : List (StopReport α)) : List Nat :=
  (stops.zip told).filterMap fun (stop, report) => if report.trip = trip then stop.job? else none

/-- The stops of a route are told about one after the other, and trips are counted on the way. -/
inductive Recounts (p : Problem α) (plan : Plan α) (r : Nat) :
    Nat → List Stop → List (StopReport α) → Prop
  | nil (trip : Nat) : Recounts p plan r trip [] []
  | destination {trip job : Nat} {d : Destination α} {rest : List Stop}
      {told : List (StopReport α)} (found : p.destination job = .ok d)
      (arrival departure : Instant) (waiting : Duration)
      (later : Recounts p plan r trip rest told) :
      Recounts p plan r trip (.destination job :: rest)
        (.destination d.id d.location trip arrival departure waiting :: told)
  | base {trip b : Nat} {base : Base} {rest : List Stop} {told : List (StopReport α)}
      (found : plan.pool.base b = .ok base) (arrival departure : Instant)
      (later : Recounts p plan r (trip + 1) rest told) :
      Recounts p plan r trip (.base b :: rest)
        (.base base.id base.location trip arrival departure (plan.ledger.load r trip).amounts ::
          told)

section

variable {p : Problem α} {plan : Plan α} {r trip : Nat} {stops : List Stop}
  {told : List (StopReport α)} {visits : List Visit}

omit [Quantity α]

theorem recounts_of_ofStops (done : ofStops p plan r trip stops visits = .ok told) :
    Recounts p plan r trip stops told := by
  induction stops generalizing trip visits told with
  | nil =>
      cases done
      exact .nil trip
  | cons stop rest inductionHypothesis =>
      cases visits with
      | nil => cases done
      | cons visit visits =>
          cases stop with
          | destination job =>
              simp only [ofStops, bind_eq_ok] at done
              rcases done with ⟨d, found, later, tail, equal⟩
              cases equal
              exact .destination found _ _ _ (inductionHypothesis tail)
          | base b =>
              simp only [ofStops, bind_eq_ok] at done
              rcases done with ⟨base, found, later, tail, equal⟩
              cases equal
              exact .base found _ _ (inductionHypothesis tail)

namespace Recounts

theorem tells (recounts : Recounts p plan r trip stops told) :
    List.Forall₂ (Tells p plan.pool) stops told := by
  induction recounts with
  | nil => exact .nil
  | destination found arrival departure waiting _ inductionHypothesis =>
      exact .cons (.destination found _ arrival departure waiting) inductionHypothesis
  | base found arrival departure _ inductionHypothesis =>
      exact .cons (.base found _ arrival departure _) inductionHypothesis

/-- The trip of a stop is the number of bases before it. -/
theorem trip_eq (recounts : Recounts p plan r trip stops told)
    {before after : List (StopReport α)} {here : StopReport α}
    (split : told = before ++ here :: after) : here.trip = trip + before.countP (·.isBase) := by
  induction recounts generalizing before with
  | nil => simp at split
  | destination _ _ _ _ _ inductionHypothesis =>
      cases before with
      | nil =>
          cases split
          rfl
      | cons first before =>
          obtain ⟨rfl, later⟩ := List.cons_eq_cons.mp split
          rw [List.countP_cons_of_neg (by simp [isBase, isDestination])]
          exact inductionHypothesis later
  | base _ _ _ _ inductionHypothesis =>
      cases before with
      | nil =>
          cases split
          rfl
      | cons first before =>
          obtain ⟨rfl, later⟩ := List.cons_eq_cons.mp split
          rw [List.countP_cons_of_pos (by simp [isBase, isDestination]), inductionHypothesis later]
          omega

theorem countP_isBase (recounts : Recounts p plan r trip stops told) :
    told.countP (·.isBase) = basesIn stops := by
  induction recounts with
  | nil => rfl
  | destination _ _ _ _ _ inductionHypothesis =>
      rw [List.countP_cons_of_neg (by simp [isBase, isDestination]), basesIn_destination,
        inductionHypothesis]
  | base _ _ _ _ inductionHypothesis =>
      rw [List.countP_cons_of_pos (by simp [isBase, isDestination]), basesIn_base,
        inductionHypothesis]

/-- A base is told to unload the load that the ledger holds for its trip. -/
theorem load_eq (recounts : Recounts p plan r trip stops told) {here : StopReport α}
    (member : here ∈ told) {load : List α} (unloads : here.load? = some load) :
    load = (plan.ledger.load r here.trip).amounts := by
  induction recounts with
  | nil => cases member
  | destination _ _ _ _ _ inductionHypothesis =>
      rcases List.mem_cons.mp member with rfl | later
      · cases unloads
      · exact inductionHypothesis later
  | base _ _ _ _ inductionHypothesis =>
      rcases List.mem_cons.mp member with rfl | later
      · cases unloads
        rfl
      · exact inductionHypothesis later

/-- The jobs told to be on a trip are those of the trip, and none is on an earlier one. -/
theorem servedOn_eq (recounts : Recounts p plan r trip stops told) :
    (∀ k, servedOn (trip + k) stops told = jobsOfTrip stops k) ∧
      ∀ earlier < trip, servedOn earlier stops told = [] := by
  induction recounts with
  | nil => exact ⟨fun k => (jobsOfTrip_nil k).symm, fun _ _ => rfl⟩
  | @destination trip job _ rest told _ _ _ _ _ inductionHypothesis =>
      obtain ⟨now, before⟩ := inductionHypothesis
      have head (n : Nat) (report : StopReport α) (here : report.trip = trip) :
          servedOn n (.destination job :: rest) (report :: told) =
            if n = trip then job :: servedOn n rest told else servedOn n rest told := by
        by_cases same : trip = n
        · simp [servedOn, here, same, Stop.job?]
        · simp [servedOn, here, same, Ne.symm same]
      refine ⟨fun k => ?_, fun earlier low => ?_⟩
      · rw [head _ _ rfl, jobsOfTrip_destination, now]
        by_cases first : k = 0
        · subst first
          simp
        · rw [if_neg (by omega), if_neg first]
      · rw [head _ _ rfl, if_neg (by omega), before earlier low]
  | @base trip b _ rest told _ _ _ _ inductionHypothesis =>
      obtain ⟨now, before⟩ := inductionHypothesis
      have head (n : Nat) (report : StopReport α) :
          servedOn n (.base b :: rest) (report :: told) = servedOn n rest told := by
        simp [servedOn, Stop.job?]
      refine ⟨fun k => ?_, fun earlier low => ?_⟩
      · rw [head]
        cases k with
        | zero => exact before trip (Nat.lt_succ_self trip)
        | succ k =>
            rw [jobsOfTrip_base_succ, ← now k]
            congr 1
            omega
      · rw [head, before earlier (by omega)]

end Recounts

end

end StopReport

/-! ### What is told about a route -/

/-- The account of a route tells about its stops in their order.  A stop is on the trip with the
number of bases before it, a base unloads what the destinations of its trip ask for, and there are
as many trips as bases. -/
structure RouteReport.Accounts (p : Problem α) (pool : BasePool) (stops : List Stop)
    (report : RouteReport α) : Prop where
  tells : List.Forall₂ (StopReport.Tells p pool) stops report.stops
  trip_eq : ∀ before told after, report.stops = before ++ told :: after →
    told.trip = before.countP (·.isBase)
  load_eq : ∀ told ∈ report.stops, ∀ load, told.load? = some load →
    load = (p.demandOf (StopReport.servedOn told.trip stops report.stops)).amounts
  tripCount_eq : report.tripCount = report.stops.countP (·.isBase)

section

variable {p : Problem α} {plan : Plan α} {r : Nat} {route : Route}

theorem RouteReport.accounts_of_ofRoute {report : RouteReport α} (agrees : plan.Agrees p r)
    (found : plan.routes[r]? = some route) (done : RouteReport.ofRoute p plan r = .ok report) :
    report.Accounts p plan.pool route.stops := by
  simp only [RouteReport.ofRoute, bind_eq_ok, route_eq_ok] at done
  obtain ⟨_, again, v, _, told, tells, _, _, _, _, equal⟩ := done
  cases found.symm.trans again
  cases equal
  have recounts := StopReport.recounts_of_ofStops tells
  have visits := visits_of_route found
  refine ⟨recounts.tells, fun before here after split => ?_, fun here member load unloads => ?_, ?_⟩
  · rw [recounts.trip_eq split, Nat.zero_add]
  · have served := recounts.servedOn_eq.1 here.trip
    rw [Nat.zero_add] at served
    rw [served, ← agrees.load_eq visits]
    exact recounts.load_eq member unloads
  · rw [recounts.countP_isBase]
    exact agrees.tripCount_eq visits

end

/-! ### What is told about a plan -/

namespace SolutionReport

/-- The destinations that a report lists, by name and location: first those on its routes, then
those that are unassigned. -/
def listed (report : SolutionReport α) : List (String × Nat) :=
  report.routes.flatMap (fun route => route.stops.filterMap (·.destination?)) ++
    report.unassigned.map fun d => (d.id, d.location)

/-- A job and the destination that is listed for it. -/
def Lists (p : Problem α) (job : Nat) (item : String × Nat) : Prop :=
  ∃ d, p.destination job = .ok d ∧ item = (d.id, d.location)

/-- The account of a plan: of its routes that visit something, in their order, and of every
destination of the problem once.  Trips are added up over the routes that are told about. -/
structure Accounts (p : Problem α) (plan : Plan α) (report : SolutionReport α) : Prop where
  routes : List.Forall₂ (RouteReport.Accounts p plan.pool)
    ((plan.itineraries.map (·.2)).filter (!·.isEmpty)) report.routes
  complete : ∃ jobs, jobs.Perm (List.range p.destinations.size) ∧
    List.Forall₂ (Lists p) jobs report.listed
  tripCount_eq : report.tripCount = (report.routes.map (·.tripCount)).sum

section

variable {p : Problem α} {plan : Plan α} {report : SolutionReport α} {bases : Nat}

/-- Answers stand across from what they are answers to. -/
theorem forall₂_of_mapM_eq_ok {ε β γ : Type} {f : β → Except ε γ} {xs : List β} {ys : List γ}
    (done : xs.mapM f = .ok ys) : List.Forall₂ (fun x y => f x = .ok y) xs ys := by
  induction xs generalizing ys with
  | nil =>
      cases done
      exact .nil
  | cons x xs inductionHypothesis =>
      obtain ⟨y, rest, head, tail, rfl⟩ := mapM_cons_eq_ok.mp done
      exact .cons head (inductionHypothesis tail)

/-! #### Every destination once -/

omit [Quantity α] in
/-- What is told about some stops lists the jobs among them. -/
theorem lists_of_tells {pool : BasePool} {stops : List Stop} {told : List (StopReport α)}
    (tells : List.Forall₂ (StopReport.Tells p pool) stops told) :
    List.Forall₂ (Lists p) (jobsIn stops) (told.filterMap (·.destination?)) := by
  refine List.rel_filterMap (fun stop report first => ?_) tells
  cases first with
  | destination found => exact .some ⟨_, found, rfl⟩
  | base => exact .none

theorem count_jobsIn (job : Nat) (stops : List Stop) :
    (jobsIn stops).count job = stops.count (.destination job) := by
  induction stops with
  | nil => rfl
  | cons stop rest inductionHypothesis =>
      cases stop with
      | destination other => simp [List.count_cons, inductionHypothesis]
      | base b => simp [inductionHypothesis]

omit [Quantity α] in
/-- Every job of the problem is on a route or unassigned, and there is no other. -/
theorem perm_jobs (conserved : Conserved p.destinations.size bases plan) :
    (jobsIn plan.allStops ++ plan.unassigned).Perm (List.range p.destinations.size) := by
  apply List.perm_iff_count.mpr
  intro job
  have once := conserved.once (.destination job)
  have served : (jobsIn plan.allStops).count job = plan.routed (.destination job) := by
    rw [routed_eq_count]
    exact count_jobsIn job plan.allStops
  rw [tally, waiting, knows, List.count_nil, Nat.add_zero] at once
  rw [List.count_append, served, Nat.add_comm, once, List.nodup_range.count]
  simp only [List.mem_range]
  split
  · rename_i inside
    rw [decide_eq_true inside]
    rfl
  · rename_i outside
    rw [decide_eq_false outside]
    rfl

/-- The stops of a route by its number. -/
def stopsAt (plan : Plan α) (r : Nat) : List Stop := (plan.routes[r]?.map (·.stops)).getD []

omit [Quantity α] in
/-- The routes that are told about are those that visit something. -/
theorem map_stopsAt_used (plan : Plan α) :
    (plan.routeIds.filter fun r => !(plan.routes[r]?.all (·.isEmpty))).map (stopsAt plan) =
      (plan.itineraries.map (·.2)).filter (!·.isEmpty) := by
  have all : plan.itineraries.map (·.2) = plan.routeIds.map (stopsAt plan) := by
    apply List.ext_getElem?
    intro r
    simp only [itineraries, routeIds, List.getElem?_map]
    by_cases inside : r < plan.routes.length
    · simp [inside, stopsAt]
    · simp [inside]
  rw [all, List.filter_map]
  congr 1
  apply List.filter_congr
  intro r _
  cases found : plan.routes[r]? with
  | none => simp [stopsAt, found]
  | some route => simp [stopsAt, found, Route.isEmpty]

/-- What is told about the routes that visit something. -/
theorem accounts_of_routes {routes : List (RouteReport α)} (agrees : ∀ r, plan.Agrees p r)
    (done : (plan.routeIds.filter fun r => !(plan.routes[r]?.all (·.isEmpty))).mapM
      (RouteReport.ofRoute p plan) = .ok routes) :
    List.Forall₂ (RouteReport.Accounts p plan.pool)
      ((plan.itineraries.map (·.2)).filter (!·.isEmpty)) routes := by
  rw [← map_stopsAt_used, List.forall₂_map_left_iff]
  refine (forall₂_of_mapM_eq_ok done).imp fun r told tells => ?_
  obtain ⟨route, found⟩ : ∃ route, plan.routes[r]? = some route := by
    simp only [RouteReport.ofRoute, bind_eq_ok, route_eq_ok] at tells
    obtain ⟨route, found, _⟩ := tells
    exact ⟨route, found⟩
  have stops : stopsAt plan r = route.stops := by rw [stopsAt, found]; rfl
  exact stops ▸ RouteReport.accounts_of_ofRoute (agrees r) found tells

/-- The destinations on the routes are listed once, and none besides. -/
theorem lists_routes {routes : List (RouteReport α)}
    (accounts : List.Forall₂ (RouteReport.Accounts p plan.pool)
      ((plan.itineraries.map (·.2)).filter (!·.isEmpty)) routes) :
    List.Forall₂ (Lists p) (jobsIn plan.allStops)
      (routes.flatMap fun route => route.stops.filterMap (·.destination?)) := by
  have used : plan.allStops = ((plan.itineraries.map (·.2)).filter (!·.isEmpty)).flatten := by
    rw [List.flatten_filter_not_isEmpty, allStops, List.flatMap_def]
  rw [used, jobsIn, List.filterMap_flatten, ← List.flatMap_def]
  exact List.rel_flatMap accounts fun _ _ route => lists_of_tells route.tells

/-- What adds nothing to a sum may be left out. -/
theorem sum_map_filter {β : Type} {f : β → Nat} {q : β → Bool} {xs : List β}
    (rest : ∀ x ∈ xs, q x = false → f x = 0) : ((xs.filter q).map f).sum = (xs.map f).sum := by
  induction xs with
  | nil => rfl
  | cons x xs inductionHypothesis =>
      have later := inductionHypothesis fun y member => rest y (List.mem_cons_of_mem x member)
      cases kept : q x with
      | true => rw [List.filter_cons_of_pos kept, List.map_cons, List.map_cons, List.sum_cons,
          List.sum_cons, later]
      | false =>
          rw [List.filter_cons_of_neg (by simp [kept]), List.map_cons, List.sum_cons, later,
            rest x List.mem_cons_self kept, Nat.zero_add]

/-- Trips are added up over the routes that visit something, since on the others there is none. -/
theorem tripCount_of_routes {routes : List (RouteReport α)} (agrees : ∀ r, plan.Agrees p r)
    (done : (plan.routeIds.filter fun r => !(plan.routes[r]?.all (·.isEmpty))).mapM
      (RouteReport.ofRoute p plan) = .ok routes) :
    plan.tripCount = (routes.map (·.tripCount)).sum := by
  have told : (plan.routeIds.filter fun r => !(plan.routes[r]?.all (·.isEmpty))).map
      plan.ledger.tripCount = routes.map (·.tripCount) := by
    rw [← List.forall₂_eq_eq_eq, List.forall₂_map_left_iff, List.forall₂_map_right_iff]
    refine (forall₂_of_mapM_eq_ok done).imp fun r report tells => ?_
    simp only [RouteReport.ofRoute, bind_eq_ok] at tells
    obtain ⟨_, _, _, _, _, _, _, _, _, _, equal⟩ := tells
    cases equal
    rfl
  have unused (r : Nat) (member : r ∈ plan.routeIds)
      (empty : (!(plan.routes[r]?.all (·.isEmpty))) = false) : plan.ledger.tripCount r = 0 := by
    have found := List.getElem?_eq_getElem (List.mem_range.mp member)
    rw [found, Option.all_some, Bool.not_eq_false', Route.isEmpty, List.isEmpty_iff] at empty
    rw [(agrees r).tripCount_eq (visits_of_route found), empty, basesIn_nil]
  rw [← told, sum_map_filter unused, Plan.tripCount, List.sum_eq_foldl, List.foldl_map]

/-- A report of a plan that conserves all stops, and of which the ledger tells the truth, is an
account of it. -/
theorem accounts_of_ofPlan (conserved : Conserved p.destinations.size bases plan)
    (agrees : ∀ r, plan.Agrees p r) (done : ofPlan p plan = .ok report) :
    report.Accounts p plan := by
  simp only [ofPlan, bind_eq_ok] at done
  obtain ⟨routes, told, unassigned, left, _, _, equal⟩ := done
  cases equal
  have accounts := accounts_of_routes agrees told
  have waiting : List.Forall₂ (Lists p) plan.unassigned
      (unassigned.map fun d => (d.id, d.location)) := by
    rw [List.forall₂_map_right_iff]
    refine (forall₂_of_mapM_eq_ok left).imp fun job told tells => ?_
    obtain ⟨d, found, equal⟩ := bind_eq_ok.mp tells
    cases equal
    exact ⟨d, found, rfl⟩
  exact ⟨accounts, ⟨_, perm_jobs conserved, List.rel_append (lists_routes accounts) waiting⟩,
    tripCount_of_routes agrees told⟩

end

end SolutionReport

/-! ### A report is always there -/

/-- Every profile has a cost for each two locations. -/
def Problem.Priced (p : Problem α) : Prop :=
  ∀ profile ∈ p.profiles, ¬ ProblemParts.LacksCosts p.points.size profile

section

variable {p : Problem α} {plan : Plan α} {pool : BasePool} {v : Vehicle α} {bases r : Nat}
  {stops : List Stop} {route : Route}

theorem travelCost_answers {origin target : Option Nat} (linked : p.Linked) (priced : p.Priced)
    (known : v ∈ p.vehicles) (leaves : p.HasPlace origin) (arrives : p.HasPlace target) :
    ∃ cost, p.travelCost v origin target = .ok cost := by
  have inside := linked.profiles v known
  have among := Array.getElem_mem inside
  unfold Problem.travelCost
  split
  · rename_i a b
    simp only [Problem.lookUp, Array.getElem?_eq_getElem inside]
    cases looked : p.profiles[v.profile].table.cost a b with
    | ok cost => exact ⟨cost, rfl⟩
    | error fault =>
        have lacks := ProblemParts.lacksCosts_of_cost_eq_error (linked.tables _ among)
          (leaves a rfl) (arrives b rfl) looked
        exact absurd lacks (priced _ among)
  · exact ⟨0, rfl⟩

theorem Route.costFrom_answers (linked : p.Linked) (priced : p.Priced) (known : v ∈ p.vehicles)
    (all : ∀ stop ∈ stops, p.HasStop pool stop) {place : Option Nat} (lies : p.HasPlace place)
    (spent : α) : ∃ cost, costFrom p pool v place spent stops = .ok cost := by
  induction stops generalizing place spent with
  | nil =>
      obtain ⟨cost, home⟩ := travelCost_answers linked priced known lies (linked.endLocation known)
      exact ⟨spent + cost, by rw [costFrom, home]; rfl⟩
  | cons stop rest inductionHypothesis =>
      obtain ⟨at?, found, there⟩ := (all stop List.mem_cons_self).stopLocation linked
      obtain ⟨cost, travels⟩ :=
        travelCost_answers linked priced known lies (there.orElse lies)
      obtain ⟨total, later⟩ := inductionHypothesis
        (fun stop member => all stop (List.mem_cons_of_mem _ member)) (there.orElse lies)
        (spent + cost)
      refine ⟨total, ?_⟩
      simp only [costFrom, bind_eq_ok]
      exact ⟨at?, found, cost, travels, later⟩

theorem Route.transportCost_answers (linked : p.Linked) (priced : p.Priced)
    (drives : p.vehicle route.vehicle = .ok v) (all : ∀ stop ∈ route.stops, p.HasStop pool stop) :
    ∃ cost, route.transportCost p pool = .ok cost := by
  have known : v ∈ p.vehicles := Array.mem_of_getElem? (orOutOfTable_eq_ok.mp drives)
  unfold Route.transportCost
  split
  · exact ⟨0, rfl⟩
  · rw [drives]
    exact costFrom_answers linked priced known all (linked.depots v known) 0

omit [Quantity α] in
theorem StopReport.ofStops_answers {trip : Nat} {visits : List Visit}
    (known : ∀ stop ∈ stops, ∃ here, p.stopLocation plan.pool stop = .ok here)
    (long : visits.length = stops.length) :
    ∃ told, ofStops p plan r trip stops visits = .ok told := by
  induction stops generalizing trip visits with
  | nil => exact ⟨[], rfl⟩
  | cons stop rest inductionHypothesis =>
      have later := fun stop member => known stop (List.mem_cons_of_mem _ member)
      obtain ⟨here, lies⟩ := known stop List.mem_cons_self
      cases visits with
      | nil => cases long
      | cons visit visits =>
          have shorter : visits.length = rest.length := by simpa using long
          cases stop with
          | destination job =>
              obtain ⟨d, found, _⟩ := bind_eq_ok.mp lies
              obtain ⟨told, tail⟩ := @inductionHypothesis trip visits later shorter
              simp only [ofStops, bind_eq_ok]
              exact ⟨_, d, found, told, tail, rfl⟩
          | base b =>
              obtain ⟨base, found, _⟩ := bind_eq_ok.mp lies
              obtain ⟨told, tail⟩ := @inductionHypothesis (trip + 1) visits later shorter
              simp only [ofStops, bind_eq_ok]
              exact ⟨_, base, found, told, tail, rfl⟩

/-- A route that is up to date, of which all stops are known, is told about. -/
theorem RouteReport.ofRoute_answers (linked : p.Linked) (priced : p.Priced)
    (current : plan.Current p r route) (all : ∀ stop ∈ route.stops, p.HasStop plan.pool stop) :
    ∃ report, RouteReport.ofRoute p plan r = .ok report := by
  have long := Route.length_visits current.times
  have times := current.times
  simp only [Route.reschedule, bind_eq_ok] at times
  obtain ⟨v, drives, departure, sets, _⟩ := times
  obtain ⟨told, tells⟩ := StopReport.ofStops_answers (r := r) (fun _ => current.stopLocation) long
  obtain ⟨cost, travels⟩ := Route.transportCost_answers linked priced drives all
  simp only [RouteReport.ofRoute, bind_eq_ok, route_eq_ok]
  exact ⟨_, route, current.found, v, drives, told, tells, departure, sets, cost, travels, rfl⟩

/-- A plan of which nothing is out of date, and that conserves all stops, is told about. -/
theorem SolutionReport.ofPlan_answers (linked : p.Linked) (priced : p.Priced)
    (conserved : Conserved p.destinations.size bases plan) (upToDate : plan.UpToDate p)
    (tracks : plan.pool.Lies p.Tracks) : ∃ report, ofPlan p plan = .ok report := by
  have all {r : Nat} {route : Route} (found : plan.routes[r]? = some route) (stop : Stop)
      (member : stop ∈ route.stops) : p.HasStop plan.pool stop :=
    conserved.hasStop tracks (fun _ => Problem.Tracks.lt_of_linked linked) (visits_of_route found)
      member
  have routes : ∃ told, (plan.routeIds.filter fun r => !(plan.routes[r]?.all (·.isEmpty))).mapM
      (RouteReport.ofRoute p plan) = .ok told := by
    refine mapM_answers fun r member => ?_
    obtain ⟨route, current⟩ := upToDate r (List.mem_range.mp (List.mem_filter.mp member).1)
    exact RouteReport.ofRoute_answers linked priced current (all current.found)
  have left : ∃ told, (plan.unassigned.mapM fun job => do
      .ok (DestinationDocument.ofDestination (← p.destination job))) = .ok told := by
    refine mapM_answers fun job member => ?_
    have known : job < p.destinations.size := conserved.unassigned_lt member
    have found : p.destination job = .ok p.destinations[job] :=
      orOutOfTable_getElem known
    exact ⟨_, by rw [found]; rfl⟩
  have costs : ∃ cost, plan.transportCost p = .ok cost := by
    obtain ⟨costs, travels⟩ : ∃ costs, (plan.routes.filter fun r => !r.isEmpty).mapM
        (Route.transportCost p plan.pool) = .ok costs := by
      refine mapM_answers fun route member => ?_
      obtain ⟨r, found⟩ := List.mem_iff_getElem?.mp (List.mem_filter.mp member).1
      obtain ⟨same, current⟩ := upToDate r (List.getElem?_eq_some_iff.mp found).1
      cases found.symm.trans current.found
      have times := current.times
      simp only [Route.reschedule, bind_eq_ok] at times
      obtain ⟨v, drives, _⟩ := times
      exact Route.transportCost_answers linked priced drives (all found)
    exact ⟨_, by rw [Plan.transportCost, travels]; rfl⟩
  obtain ⟨told, tells⟩ := routes
  obtain ⟨unassigned, waits⟩ := left
  obtain ⟨cost, travels⟩ := costs
  simp only [ofPlan, bind_eq_ok]
  exact ⟨_, told, tells, unassigned, waits, cost, travels, rfl⟩

end

/-! ### Histories -/

/-- A plan that can be told about: it conserves all stops, nothing is out of date, and its bases lie
where volumes are tracked. -/
structure Plan.Accountable (p : Problem α) (bases : Nat) (plan : Plan α) : Prop where
  conserved : Conserved p.destinations.size bases plan
  upToDate : plan.UpToDate p
  tracks : plan.pool.Lies p.Tracks

section

variable {p : Problem α} {plan earlier placed : Plan α} {bases : Nat}

/-- Passes, insertions of bases, removals and refreshes leave a plan that can be told about. -/
theorem Operation.keepsAccountable {operation : Operation α} (refreshes : operation.Refreshes)
    (holds : plan.Accountable p bases) :
    Ends (operation.perform p) (fun _ => Accountable p bases)
      (fun e after => ∀ reason, e = .refused reason → after.Accountable p bases) plan := by
  have kept : plan.Kept p p.destinations.size bases := ⟨holds.conserved.orderly, holds.upToDate⟩
  have fresh := operation.keepsFresh refreshes kept
  have lies := operation.tracks refreshes.limited holds.tracks
  refine ((operation.conserves p holds.conserved).and (fresh.and lies)).mono
    (fun _ after now => ⟨now.1, now.2.1.upToDate, now.2.2⟩) fun e after left reason refused => ?_
  exact ⟨left.1, (left.2.1 reason refused).upToDate, left.2.2 reason refused⟩

/-- A pass that is answered brings a plan up to date, whatever it was before. -/
theorem accountable_of_recreate {settings : Settings α}
    (conserved : Conserved p.destinations.size bases earlier) (lies : earlier.pool.Lies p.Tracks)
    (recreated : (Operation.recreate settings).perform p earlier = .ok () placed) :
    placed.Accountable p bases := by
  have conserves := (Operation.recreate settings).conserves p conserved
  have refreshes : (Operation.recreate settings).Refreshes := trivial
  have tracks := Operation.tracks refreshes.limited lies
  have fresh : Ends ((Operation.recreate settings).perform p)
      (fun _ after => after.UpToDate p) (fun _ _ => True) earlier := by
    apply ends_onPlan.mpr
    refine Fill.recreate_ends (Q := fun w => w.plan.UpToDate p) (E := fun _ _ => True)
      (fun _ => trivial) fun given => ?_
    exact (insertJobs_fresh conserved.orderly).mono (fun _ _ now => now.upToDate)
      fun _ _ _ => trivial
  rw [Ends, recreated] at conserves tracks fresh
  exact ⟨conserves, fresh, tracks⟩

end

/-- Once a pass was answered, what is told about a plan is an account of it, after any further
history of passes, insertions of bases and removals.  It is always told where every profile has a
cost for each two locations. -/
theorem session_accounts {parts : ProblemParts α} {p : Problem α} (built : parts.build = .ok p)
    {before after : List (Operation α)} {settings : Settings α} {earlier placed plan : Plan α}
    (refreshes : ∀ operation ∈ before ++ after, operation.Refreshes)
    (begun : Plan.reach p before = .ok earlier)
    (recreated : (Operation.recreate settings).perform p earlier = .ok () placed)
    (done : session p after placed = .ok () plan) :
    (∀ report, SolutionReport.ofPlan p plan = .ok report → report.Accounts p plan) ∧
      (p.Priced → ∃ report, SolutionReport.ofPlan p plan = .ok report) := by
  have tracks := reach_tracks (fun operation member =>
    refreshes operation (List.mem_append_left after member)) begun
  have start := accountable_of_recreate (reach_conserves begun) tracks recreated
  have ends := session_ends (Accountable p _) (E := fun _ _ => True)
    (fun operation member plan holds => (operation.keepsAccountable
      (refreshes operation (List.mem_append_right before member)) holds).mono
        (fun _ _ kept => kept) fun _ _ left => ⟨left, fun _ _ => trivial⟩) start
  rw [Ends, done] at ends
  refine ⟨fun report tells => ?_, fun priced => ?_⟩
  · exact SolutionReport.accounts_of_ofPlan ends.conserved ends.upToDate.agrees tells
  · exact SolutionReport.ofPlan_answers (ProblemParts.linked_of_build built) priced ends.conserved
      ends.upToDate ends.tracks

/-- Two passes with a removal between them, and then the removal of the other job.  Of the two
destinations one is told to be on the route, on the one trip that is left. -/
theorem session_accounts_twoJobs :
    let settings := Settings.forProblem twoJobs .standard
    let before : List (Operation Rat) := [.recreate settings, .ruin [1]]
    let after : List (Operation Rat) := [.ruin [0], .insertBase settings 0]
    twoParts.build = .ok twoJobs ∧ (∀ operation ∈ before ++ after, operation.Refreshes) ∧
      ∃ earlier placed plan report, Plan.reach twoJobs before = .ok earlier ∧
        (Operation.recreate settings).perform twoJobs earlier = .ok () placed ∧
        session twoJobs after placed = .ok () plan ∧ twoJobs.Priced ∧
        SolutionReport.ofPlan twoJobs plan = .ok report ∧
        report.listed = [("b", 2), ("a", 1)] ∧ report.tripCount = 1 ∧
        report.Accounts twoJobs plan := by
  intro settings before after
  have refreshes : ∀ operation ∈ before ++ after, operation.Refreshes := by
    simp [before, after, Operation.Refreshes]
  have priced : twoJobs.Priced := by
    intro profile member
    simp only [twoJobs, List.mem_toArray, List.mem_singleton] at member
    subst member
    rw [ProblemParts.LacksCosts]
    decide
  have run : (Plan.reach twoJobs before >>= fun earlier => answer ((do
      (Operation.recreate settings).perform twoJobs
      session twoJobs after
      let report ← ofResult (SolutionReport.ofPlan twoJobs (← get))
      return (report.listed, report.tripCount)) earlier)) = .ok ([("b", 2), ("a", 1)], 1) := by
    decide +kernel
  simp only [bind_eq_ok, answer_eq_ok] at run
  obtain ⟨earlier, begun, _, both⟩ := run
  obtain ⟨⟨⟩, placed, recreated, rest⟩ := bind_answers.mp both
  obtain ⟨⟨⟩, plan, done, tells⟩ := bind_answers.mp rest
  obtain ⟨accounts, answers⟩ := session_accounts build_twoParts refreshes begun recreated done
  obtain ⟨report, answer⟩ := answers priced
  rw [get_bind, ofResult_bind_of_ok answer] at tells
  obtain ⟨equal, _⟩ := EStateM.Result.ok.inj tells
  obtain ⟨listed, trips⟩ := Prod.mk.inj equal
  exact ⟨build_twoParts, refreshes, earlier, placed, plan, report, begun, recreated, done, priced,
    answer, listed, trips, accounts report answer⟩

end Haulage

/-
Module: Haulage.Proofs.Sound
Purpose: Plans of which the ledger tells the truth, and which unload no more than the sites take.
  Each offer is judged by volumes that stand for what the plan unloads, and taking it up keeps both.
Main exports: Plan.Sound, Work.Sound, LeavesSound, Work.serves_ends, insertions_sound
-/
import Haulage.Proofs.ConservedSessions
import Haulage.Proofs.Unloading

namespace Haulage

open Attempt Plan

/-- A plan of which the ledger tells the truth, and which unloads no more than the sites take. -/
structure Plan.Sound (p : Problem Rat) (bases : Nat) (plan : Plan Rat) : Prop where
  conserved : Conserved p.destinations.size bases plan
  agrees : ∀ r, plan.Agrees p r
  takes : p.Takes (plan.unloads p)

/-- A sound plan with volumes that stand for what it unloads. -/
structure Work.Sound (p : Problem Rat) (bases : Nat) (w : Work Rat) : Prop where
  plan : w.plan.Sound p bases
  follows : w.volumes.Follows p
  covers : w.volumes.Covers (w.plan.unloads p)

variable {p : Problem Rat} {bases : Nat}

namespace Plan

section

variable {plan next : Plan Rat}

/-! ### Refreshing -/

theorem Sound.refreshRoute {r : Nat} (sound : plan.Sound p bases)
    (done : plan.refreshRoute p r = .ok next) : next.Sound p bases := by
  obtain ⟨itineraries, pool, _⟩ := refreshRoute_keeps done
  exact ⟨Holding.refreshRoute sound.conserved done, fun i => (sound.agrees i).refreshRoute done,
    unloads_congr itineraries (fun _ _ _ _ _ => by rw [pool]) ▸ sound.takes⟩

theorem Sound.refreshRoutes (sound : plan.Sound p bases)
    (done : plan.refreshRoutes p = .ok next) : next.Sound p bases :=
  foldlM_keeps (Plan.Sound p bases) (fun _ _ _ _ => Sound.refreshRoute) sound done

/-- A refresh of the pool changes nothing about what is unloaded. -/
theorem Sound.refreshBases (sound : plan.Sound p bases)
    (done : plan.refreshBases = .ok next) : next.Sound p bases := by
  have conserved := Holding.refreshBases sound.conserved done
  obtain ⟨itineraries, ledger, locations⟩ := refreshBases_keeps done
  refine ⟨conserved, fun r => (sound.agrees r).congr (by rw [itineraries]) (by rw [ledger])
    (locations r), ?_⟩
  exact unloads_congr itineraries locations ▸ sound.takes

/-! ### Changing a route -/

/-- A changed route that was refreshed leaves a sound plan, if the sites take what it adds. -/
theorem Sound.changed {fresh : Plan Rat} {r : Nat} {extra : List (Nat × Load Rat)}
    (sound : plan.Sound p bases) (changes : ChangesAt r plan next)
    (conserved : Conserved p.destinations.size bases next)
    (lighter : Lighter (next.unloads p) (plan.unloads p ++ extra))
    (takes : p.Takes (plan.unloads p ++ extra)) (done : next.refreshRoute p r = .ok fresh) :
    fresh.Sound p bases ∧ Lighter (fresh.unloads p) (plan.unloads p ++ extra) := by
  obtain ⟨itineraries, pool, _⟩ := refreshRoute_keeps done
  have same : fresh.unloads p = next.unloads p :=
    unloads_congr itineraries fun _ _ _ _ _ => by rw [pool]
  rw [same]
  refine ⟨⟨Holding.refreshRoute conserved done, agrees_refreshRoute sound.agrees changes done, ?_⟩,
    lighter⟩
  exact same ▸ takes.mono lighter

/-- A base that closes a trip behind some stops adds what it closes, where it is put. -/
theorem Closes.unloads_lighter (adds : p.DemandsAdd) {jobs r b location : Nat} {closed : Plan Rat}
    {front after : List Stop} (visits : plan.Visits r (front ++ after))
    (closes : Closes jobs bases r b location front after plan closed) :
    Lighter (closed.unloads p) (plan.unloads p ++ [(location, p.demandOf (openJobs front))]) := by
  apply closes.changes.unloads_lighter visits.mem_routeIds
  rw [visits.stopsOn_eq, closes.visits.stopsOn_eq, closedTrips_append, closedTrips_append, tripsOf]
  have before : unloadsOf p closed.pool (closedTrips front) =
      unloadsOf p plan.pool (closedTrips front) := unloadsOf_congr fun t member =>
    closes.kept _ (List.mem_append_left after (stops_of_mem_closedTrips member).1)
  have behind : unloadsOf p closed.pool (closedTrips after) =
      unloadsOf p plan.pool (closedTrips after) := unloadsOf_congr fun t member =>
    closes.kept _ (List.mem_append_right front (stops_of_mem_closedTrips member).1)
  have here : unloadOf p closed.pool ⟨openJobs front, b⟩ =
      some (location, p.demandOf (openJobs front)) := by
    rw [unloadOf, closes.placed]
    rfl
  rw [unloadsOf_append, unloadsOf_append, unloadsOf_cons, here, before, ← closedTrips, behind,
    Option.toList_some, List.append_assoc]
  refine (Lighter.refl _).append (Lighter.trans ?_ (.of_perm List.perm_append_comm))
  exact (Lighter.refl _).append (lighter_tripsOf adds (openJobs front) after)

end

end Plan

/-! ### Taking up an offer -/

/-- A refusal leaves a sound plan.  After a fault nothing is promised. -/
def LeavesSound (p : Problem Rat) (bases : Nat) (e : Failure) (w : Work Rat) : Prop :=
  ∀ reason, e = .refused reason → w.plan.Sound p bases

namespace Work

theorem leavesSound_of_fault {x : Except Failure (Plan Rat)} (never : NeverRefuses x)
    (w : Work Rat) : ∀ e, x = .error e → LeavesSound p bases e w :=
  fun _ failed reason refused => absurd refused (never.isFault failed reason)

/-- Once the changes of a proposal are made, its route is refreshed and the volumes are brought up
to date. -/
def Settles (p : Problem Rat) (bases : Nat) (q : Proposal) (w : Work Rat) (plan : Plan Rat) :
    Prop :=
  (∀ e, plan.refreshRoute p q.route = .error e → LeavesSound p bases e { w with plan := plan }) ∧
    ∀ fresh, plan.refreshRoute p q.route = .ok fresh →
      Ends (recount p q w.volumes fresh) (fun _ next => next.Sound p bases)
        (LeavesSound p bases) { w with plan := fresh }

variable {q : Proposal} {w : Work Rat} {provider : LocationProvider Rat}

/-- A base that closes a trip, where the site takes what it closes. -/
theorem closing_ends (adds : p.DemandsAdd) {plan : Plan Rat} {b location : Nat}
    {duration : Duration} {front : List Stop} (after : List Stop) (sound : w.Sound p bases)
    (opens : q.opensTrip = true) (changes : ChangesAt q.route w.plan plan)
    (conserved : Conserved p.destinations.size bases plan)
    (visits : plan.Visits q.route (front ++ after)) (free : plan.pool.isFree b = true)
    (lighter : Lighter (plan.unloads p) (w.plan.unloads p))
    (takes : p.Takes (w.plan.unloads p ++ [(location, p.demandOf (openJobs front))])) :
    Ends (makeChanges [.insert q.route front.length (.base b), .place b location duration])
      (fun _ => Settles p bases q w) (fun e plan => LeavesSound p bases e { w with plan := plan })
      plan := by
  refine ends_closing conserved visits free fun closed closes => ?_
  refine ⟨leavesSound_of_fault (NeverRefuses.refreshRoute p closed q.route) _,
    fun fresh refreshed => ?_⟩
  have more := closes.unloads_lighter adds visits
  obtain ⟨freshSound, _⟩ := sound.plan.changed (changes.trans closes.changes) closes.conserved
    (more.trans (lighter.append (.refl _))) takes refreshed
  rw [recount, if_pos opens, onVolumes, ends_within]
  refine (rebuild_covers freshSound.agrees sound.follows).mono (fun _ volumes counted => ?_)
    fun _ _ _ _ _ => freshSound
  exact ⟨freshSound, counted.1, counted.2⟩

/-- A job that joined a trip adds its demand where the trip unloads, which is where it unloaded
before, and nothing else. -/
theorem joins_unloads {route : Route} {v : Vehicle Rat} {job : Nat} {d : Destination Rat}
    {before after : List Stop} {next fresh : Plan Rat} (agrees : ∀ i, w.plan.Agrees p i)
    (found : w.plan.routes[q.route]? = some route) (served : p.destination job = .ok d)
    (joins : JoinsTrip w.plan w.volumes route v job d.demand before after q)
    (inserted : w.plan.insertStop q.route before.length (.destination job) = .ok next)
    (refreshed : next.refreshRoute p q.route = .ok fresh) :
    fresh.ledger.unloadLocation? q.route q.trip = w.plan.ledger.unloadLocation? q.route q.trip ∧
      SameLoads (fresh.unloads p) (w.plan.unloads p ++
        ((w.plan.ledger.unloadLocation? q.route q.trip).map
          fun location => (location, d.demand)).toList) := by
  have visits := joins.visits found
  have changes : ChangesAt q.route w.plan fresh :=
    (ChangesAt.insertStop inserted).trans (.refreshRoute refreshed)
  obtain ⟨itineraries, poolNow, _⟩ := refreshRoute_keeps refreshed
  have visitsNow : fresh.Visits q.route (before ++ .destination job :: after) := by
    rw [Visits, itineraries]
    exact visits.insertStop inserted
  have pool : fresh.pool = w.plan.pool := by
    obtain ⟨_, _, _, _, rfl⟩ := insertStop_destination.mp inserted
    exact poolNow
  obtain ⟨place, own⟩ := sameLoads_insert (p := p) w.plan.pool job before after
  have unloads := (agrees q.route).unloadLocation_eq visits q.trip
  have agreesNow := (refreshRoute_agrees refreshed).1
  rw [← joins.trip_eq] at place own
  constructor
  · rw [agreesNow.unloadLocation_eq visitsNow, pool, place, unloads]
  · obtain ⟨first, last, was, is⟩ := changes.unloads_split (p := p) visits.mem_routeIds
    rw [was, is, visits.stopsOn_eq, visitsNow.stopsOn_eq, pool]
    rw [← unloads, Problem.demand_eq served] at own
    exact own.middle first last

/-- A job that joined a trip leaves a sound plan, as the site takes it in addition. -/
theorem joins_sound {route : Route} {v : Vehicle Rat} {job : Nat} {d : Destination Rat}
    {before after : List Stop} {next fresh : Plan Rat} (sound : w.Sound p bases)
    (found : w.plan.routes[q.route]? = some route) (served : p.destination job = .ok d)
    (joins : JoinsTrip w.plan w.volumes route v job d.demand before after q)
    (inserted : w.plan.insertStop q.route before.length (.destination job) = .ok next)
    (refreshed : next.refreshRoute p q.route = .ok fresh) : fresh.Sound p bases := by
  obtain ⟨_, same⟩ := joins_unloads sound.plan.agrees found served joins inserted refreshed
  refine ⟨Holding.refreshRoute (Holding.insertStop sound.plan.conserved inserted) refreshed,
    agrees_refreshRoute sound.plan.agrees (.insertStop inserted) refreshed, ?_⟩
  refine Problem.Takes.mono ?_ same.lighter
  cases lies : w.plan.ledger.unloadLocation? q.route q.trip with
  | none => simpa using sound.plan.takes
  | some location =>
      exact sound.covers.takes sound.follows sound.plan.takes (joins.loadable location lies)

/-- A job that joins a trip, where the site takes it in addition. -/
theorem joins_ends {route : Route} {v : Vehicle Rat} {job : Nat} {d : Destination Rat}
    {before after : List Stop} (sound : w.Sound p bases)
    (found : w.plan.routes[q.route]? = some route) (served : p.destination job = .ok d)
    (joins : JoinsTrip w.plan w.volumes route v job d.demand before after q) :
    Ends (Fill.commit p q) (fun _ next => next.Sound p bases) (LeavesSound p bases) w := by
  have keeps : q.opensTrip = false := by
    simp [Proposal.opensTrip, joins.changes_eq, Change.placesBase]
  have serves : q.job? = some job := by
    simp [Proposal.job?, joins.changes_eq, Change.inserted?, Stop.job?]
  apply commit_ends (fun _ _ _ _ => sound.plan)
  refine joins.ends_changes (fun next inserted => ?_) fun _ _ _ => sound.plan
  refine ⟨leavesSound_of_fault (NeverRefuses.refreshRoute p next q.route) _,
    fun fresh refreshed => ?_⟩
  have freshSound := joins_sound sound found served joins inserted refreshed
  obtain ⟨unloadsNow, same⟩ :=
    joins_unloads sound.plan.agrees found served joins inserted refreshed
  rw [recount, keeps, if_neg Bool.false_ne_true, unloadsNow, serves]
  cases lies : w.plan.ledger.unloadLocation? q.route q.trip with
  | none =>
      rw [lies] at same
      exact ⟨freshSound, sound.follows, sound.covers.mono (by simpa using same.lighter)⟩
  | some location =>
      rw [lies] at same
      simp only [ends_bind, ends_ofResult, ends_set]
      refine ⟨fun d' servedAgain => ⟨fun volumes added => ?_, fun _ _ _ _ => freshSound⟩,
        fun _ _ _ _ => freshSound⟩
      rw [served] at servedAgain
      cases servedAgain
      exact ⟨freshSound, (Volumes.sameLimits_add added).follows sound.follows,
        (sound.covers.add added).mono same.lighter⟩

/-- A trip that is opened at the end of a route. -/
theorem opens_ends (adds : p.DemandsAdd) {route : Route} {v : Vehicle Rat} {job b location : Nat}
    {d : Destination Rat} {duration : Duration} (sound : w.Sound p bases)
    (found : w.plan.routes[q.route]? = some route) (served : p.destination job = .ok d)
    (opens : OpensTrip w.plan w.volumes provider route v job d.demand b location duration q) :
    Ends (Fill.commit p q) (fun _ next => next.Sound p bases) (LeavesSound p bases) w := by
  have visits : w.plan.Visits q.route (route.stops ++ []) := by
    rw [List.append_nil]
    exact visits_of_route found
  apply commit_ends (fun _ _ _ _ => sound.plan)
  rw [opens.changes_eq]
  refine (ends_makeChanges_cons _ _).mpr ⟨fun next inserted => ?_, fun _ _ _ _ => sound.plan⟩
  have inserted : w.plan.insertStop q.route route.stops.length (.destination job) = .ok next :=
    inserted
  have changes : ChangesAt q.route w.plan next := .insertStop inserted
  have visitsNow := visits.insertStop inserted
  have pool : next.pool = w.plan.pool := by
    obtain ⟨_, _, _, _, rfl⟩ := insertStop_destination.mp inserted
    rfl
  have load : w.plan.ledger.load q.route q.trip + d.demand =
      p.demandOf (openJobs (route.stops ++ [.destination job])) := by
    rw [(sound.plan.agrees q.route).load_eq visits, opens.trip_eq, List.append_nil,
      jobsOfTrip_open, openJobs_append_destination, Problem.demandOf_append_singleton,
      Problem.demand_eq served]
  have position : route.stops.length + 1 = (route.stops ++ [Stop.destination job]).length := by simp
  rw [position]
  refine closing_ends adds [] sound ?_ changes
    (Holding.insertStop sound.plan.conserved inserted) (by simpa using visitsNow) ?_ ?_ ?_
  · simp [Proposal.opensTrip, opens.changes_eq, Change.placesBase]
  · exact pool ▸ BasePool.isFree_of_lowestFree? opens.lowest
  · -- No base closes the job yet.
    apply changes.unloads_lighter_of_own visits.mem_routeIds
    rw [visits.stopsOn_eq, visitsNow.stopsOn_eq, pool, closedTrips_append_destination,
      List.append_nil]
    exact .refl _
  · exact load ▸ sound.covers.takes sound.follows sound.plan.takes opens.loadable

/-- A base that splits a trip. -/
theorem splits_ends (adds : p.DemandsAdd) {route : Route} {b job location : Nat}
    {duration : Duration} {before after : List Stop} {load : Load Rat} (sound : w.Sound p bases)
    (lowest : w.plan.pool.lowestFree? = some b) (found : w.plan.routes[q.route]? = some route)
    (splits : SplitsTrip w.plan w.volumes provider route b job location duration before after load
      q) :
    Ends (Fill.commit p q) (fun _ next => next.Sound p bases) (LeavesSound p bases) w := by
  have visits := splits.visits found
  have entry := (sound.plan.agrees q.route _ visits).load_at before job after (by simp)
  have demand : load = p.demandOf (openJobs (before ++ [.destination job])) := by
    rw [splits.load_eq, Ledger.stop?, entry, openJobs_append_destination]
    rfl
  apply commit_ends (fun _ _ _ _ => sound.plan)
  rw [splits.changes_behind]
  refine closing_ends adds after sound ?_ (.refl _ _) sound.plan.conserved visits
    (BasePool.isFree_of_lowestFree? lowest) (.refl _) ?_
  · simp [Proposal.opensTrip, splits.changes_eq, Change.placesBase]
  · exact demand ▸ sound.covers.takes sound.follows sound.plan.takes splits.loadable

/-- Taking up an offer for a job. -/
theorem serves_ends (adds : p.DemandsAdd) {job : Nat} (sound : w.Sound p bases)
    (serves : Serves p w.plan w.volumes provider job q) :
    Ends (Fill.commit p q) (fun _ next => next.Sound p bases) (LeavesSound p bases) w := by
  rcases serves with ⟨route, v, d, found, _, served, _, offer⟩
  rcases offer with ⟨before, after, joins⟩ | ⟨b, location, duration, opens⟩
  · exact joins_ends sound found served joins
  · exact opens_ends adds sound found served opens

end Work

/-! ### Insertion -/

/-- Marks for the job at hand do not count. -/
theorem SameMarks.agrees {plan : Plan Rat} {ledger : Ledger Rat} {r : Nat}
    (same : SameMarks ledger plan.ledger) (agrees : plan.Agrees p r) :
    Plan.Agrees p { plan with ledger := ledger } r := by
  intro stops visits
  have before := agrees stops visits
  have trips := congrArg RouteEntry.trips (same r)
  have count := congrArg RouteEntry.tripCount (same r)
  have entries := congrArg RouteEntry.stops (same r)
  simp only at trips count entries
  exact ⟨trips.trans before.trips_eq, count ▸ before.count_eq, entries ▸ before.load_at⟩

theorem SameMarks.sound {w : Work Rat} {ledger : Ledger Rat} (sound : w.Sound p bases)
    (same : SameMarks ledger w.plan.ledger) :
    Work.Sound p bases { w with plan := { w.plan with ledger := ledger } } :=
  ⟨⟨sound.plan.conserved.congr rfl rfl rfl, fun r => same.agrees (sound.plan.agrees r),
    sound.plan.takes⟩, sound.follows, sound.covers⟩

/-- Counting the volumes of a sound plan anew. -/
theorem Plan.Sound.counts {plan : Plan Rat} {volumes : Volumes Rat} (sound : plan.Sound p bases)
    (follows : volumes.Follows p) :
    Ends (Volumes.rebuild plan) (fun _ counted => Work.Sound p bases ⟨plan, counted⟩)
      (fun e counted => LeavesSound p bases e ⟨plan, counted⟩) volumes :=
  (rebuild_covers sound.agrees follows).mono
    (fun _ _ counted => ⟨sound, counted.1, counted.2⟩) fun _ _ _ _ _ => sound

theorem insertions_sound (adds : p.DemandsAdd) (settings : Settings Rat) (jobs : List Nat)
    {plan : Plan Rat} (sound : plan.Sound p bases) :
    Ends (Fill.insertions p settings jobs) (fun _ g => g.work.Sound p bases)
      (fun e g => LeavesSound p bases e g.work) (Fill.start p plan) := by
  refine Fill.insertions_ends (Work.Sound p bases) (E := LeavesSound p bases) ?_
    fun job g holds => ?_
  · refine Fill.prepare_ends (J := Work.Sound p bases) (E := LeavesSound p bases)
      (fun _ _ _ _ => sound) (fun pooled _ pool _ _ _ => sound.refreshBases pool)
      fun pooled fresh pool refreshed => ?_
    exact ((sound.refreshBases pool).refreshRoutes refreshed).counts (Volumes.follows_ofSites p)
  · exact Fill.insertJob_ends (Work.Sound p bases) holds (fun _ _ kept same _ => SameMarks.sound kept same)
      (fun _ _ kept _ _ => kept.plan) fun _ _ kept => Work.serves_ends adds kept

theorem insertBase_sound (adds : p.DemandsAdd) (settings : Settings Rat) (r : Nat)
    {plan : Plan Rat} (sound : plan.Sound p bases) :
    Ends (Fill.insertBase p settings r) (fun _ g => g.work.Sound p bases)
      (fun e g => LeavesSound p bases e g.work) (Fill.start p plan) := by
  refine Fill.insertBase_ends (J := Work.Sound p bases) (E := LeavesSound p bases)
    (fun _ _ _ _ => sound) (fun pooled _ pool _ _ _ => sound.refreshBases pool)
    (fun pooled fresh pool refreshed => ?_) (fun _ _ kept _ _ => kept.plan) ?_
  · exact ((sound.refreshBases pool).refreshRoute refreshed).counts (Volumes.follows_ofSites p)
  · rintro w q route b job location duration before after load kept lowest found rfl splits
    exact Work.splits_ends adds kept lowest found splits

end Haulage

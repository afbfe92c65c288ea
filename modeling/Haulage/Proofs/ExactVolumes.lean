/-
Module: Haulage.Proofs.ExactVolumes
Purpose: The volumes of a pass tell the truth.  Whether they are counted anew or kept up to date,
  they are what the closed trips unload, at every location and in every dimension.
Main exports: Work.Exact, insertions_exact, placeAll_exact, Work.TellsVolumes, session_tellsVolumes
-/
import Haulage.Proofs.DailyCapacity

namespace Haulage

open Attempt Plan

/-- A plan of which the ledger tells the truth, with volumes that are what it unloads. -/
structure Work.Exact (p : Problem Rat) (bases : Nat) (w : Work Rat) : Prop where
  conserved : Conserved p.destinations.size bases w.plan
  agrees : ∀ r, w.plan.Agrees p r
  follows : w.volumes.Follows p
  counts : w.volumes.Counts (w.plan.unloads p)

variable {p : Problem Rat} {bases : Nat}

/-! ### Insertion -/

namespace Work

variable {q : Proposal} {w : Work Rat} {provider : LocationProvider Rat}

/-- A job that joined a trip is added where the trip unloads, which counts it once. -/
theorem joins_exact {route : Route} {v : Vehicle Rat} {job : Nat} {d : Destination Rat}
    {before after : List Stop} (exact : w.Exact p bases)
    (found : w.plan.routes[q.route]? = some route) (served : p.destination job = .ok d)
    (joins : JoinsTrip w.plan w.volumes route v job d.demand before after q) :
    Ends (Fill.commit p q) (fun _ next => next.Exact p bases) (fun _ _ => True) w := by
  have keeps : q.opensTrip = false := by
    simp [Proposal.opensTrip, joins.changes_eq, Change.placesBase]
  have serves : q.job? = some job := by
    simp [Proposal.job?, joins.changes_eq, Change.inserted?, Stop.job?]
  apply commit_ends fun _ _ => trivial
  refine joins.ends_changes (fun next inserted => ?_) fun _ => trivial
  refine ⟨fun _ _ => trivial, fun fresh refreshed => ?_⟩
  have conserved := Holding.refreshRoute (Holding.insertStop exact.conserved inserted) refreshed
  have agrees := agrees_refreshRoute exact.agrees (.insertStop inserted) refreshed
  obtain ⟨unloadsNow, same⟩ := joins_unloads exact.agrees found served joins inserted refreshed
  rw [recount, keeps, if_neg Bool.false_ne_true, unloadsNow, serves]
  cases lies : w.plan.ledger.unloadLocation? q.route q.trip with
  | none =>
      rw [lies] at same
      exact ⟨conserved, agrees, exact.follows, exact.counts.congr (by simpa using same)⟩
  | some location =>
      rw [lies] at same
      simp only [ends_bind, ends_ofResult, ends_set]
      refine ⟨fun d' servedAgain => ⟨fun volumes added => ?_, fun _ _ => trivial⟩,
        fun _ _ => trivial⟩
      rw [served] at servedAgain
      cases servedAgain
      exact ⟨conserved, agrees, (Volumes.sameLimits_add added).follows exact.follows,
        (exact.counts.add added).congr same⟩

/-- When a trip was opened, the volumes are counted anew. -/
theorem opens_exact {route : Route} {v : Vehicle Rat} {job b location : Nat} {d : Destination Rat}
    {duration : Duration} (exact : w.Exact p bases)
    (found : w.plan.routes[q.route]? = some route)
    (opens : OpensTrip w.plan w.volumes provider route v job d.demand b location duration q) :
    Ends (Fill.commit p q) (fun _ next => next.Exact p bases) (fun _ _ => True) w := by
  have places : q.opensTrip = true := by
    simp [Proposal.opensTrip, opens.changes_eq, Change.placesBase]
  apply commit_ends fun _ _ => trivial
  rw [opens.changes_eq]
  refine ends_opening exact.conserved (visits_of_route found)
    (BasePool.isFree_of_lowestFree? opens.lowest) (fun _ => trivial)
    fun closed closes => ⟨fun _ _ => trivial, fun fresh refreshed => ?_⟩
  have agrees := agrees_refreshRoute exact.agrees closes.changes refreshed
  rw [recount, if_pos places, onVolumes, ends_within]
  refine (rebuild_counts agrees).mono (fun _ volumes counted => ?_) fun _ _ _ => trivial
  exact ⟨Holding.refreshRoute closes.conserved refreshed, agrees, counted.1.follows exact.follows,
    counted.2⟩

theorem serves_exact {job : Nat} (exact : w.Exact p bases)
    (serves : Serves p w.plan w.volumes provider job q) :
    Ends (Fill.commit p q) (fun _ next => next.Exact p bases) (fun _ _ => True) w := by
  rcases serves with ⟨route, v, d, found, _, served, _, offer⟩
  rcases offer with ⟨before, after, joins⟩ | ⟨b, location, duration, opens⟩
  · exact joins_exact exact found served joins
  · exact opens_exact exact found opens

end Work

/-- A pass begins with volumes counted anew, whatever was done to the plan before. -/
theorem prepare_exact {plan : Plan Rat} (conserved : Conserved p.destinations.size bases plan) :
    Ends (Fill.prepare p) (fun _ f => f.work.Exact p bases) (fun _ _ => True)
      (Fill.start p plan) := by
  refine Fill.prepare_ends (J := Work.Exact p bases) (E := fun _ _ => True) (fun _ _ => trivial)
    (fun _ _ _ _ => trivial) fun pooled fresh pool refreshed => ?_
  have agrees := refreshRoutes_agrees refreshed
  refine (rebuild_counts agrees).mono (fun _ volumes counted => ?_) fun _ _ _ => trivial
  exact ⟨Holding.refreshRoutes (Holding.refreshBases conserved pool) refreshed, agrees,
    counted.1.follows (Volumes.follows_ofSites p), counted.2⟩

theorem insertions_exact (settings : Settings Rat) (jobs : List Nat) {plan : Plan Rat}
    (conserved : Conserved p.destinations.size bases plan) :
    Ends (Fill.insertions p settings jobs) (fun _ f => f.work.Exact p bases) (fun _ _ => True)
      (Fill.start p plan) := by
  refine Fill.insertions_ends (Work.Exact p bases) (E := fun _ _ => True) (prepare_exact conserved)
    fun job g exact => ?_
  refine Fill.insertJob_ends (Work.Exact p bases) exact (fun w ledger kept same _ => ?_)
    (fun _ _ _ => trivial) fun _ _ kept => Work.serves_exact kept
  exact ⟨kept.conserved.congr rfl rfl rfl, fun r => same.agrees (kept.agrees r), kept.follows,
    kept.counts⟩

/-! ### Placement -/

/-- A placement under way, with volumes that are what the trips unload that were placed. -/
structure Work.Placed (p : Problem Rat) (bases : Nat) (routes : List Nat)
    (loads : List (Nat × Load Rat)) (w : Work Rat) : Prop where
  conserved : Conserved p.destinations.size bases w.plan
  agrees : ∀ r, w.plan.Agrees p r
  follows : w.volumes.Follows p
  routes_eq : w.plan.routeIds = routes
  counts : w.volumes.Counts loads

namespace Work

variable {w next : Work Rat} {settings : Settings Rat} {routes visited : List Nat} {r b : Nat}
  {placed rest : List Stop} {trip : List Nat}

theorem Placed.places {location : Nat} {duration : Duration} (absent : r ∉ visited)
    (tail : openJobs placed = []) (before : w.Placed p bases routes (w.unloaded p visited placed))
    (places : Places p settings r placed trip b rest location duration w next) :
    next.Placed p bases routes
      (next.unloaded p visited (placed ++ (trip.map .destination ++ [.base b]))) := by
  rw [unloaded_places absent tail before.conserved places]
  exact ⟨places.conserves before.conserved, places.agrees before.conserved before.agrees,
    (Volumes.sameLimits_add places.volumes_eq).follows before.follows,
    (places.changesAt before.conserved).routeIds_eq.trans before.routes_eq,
    before.counts.add places.volumes_eq⟩

theorem Placed.drops (absent : r ∉ visited)
    (before : w.Placed p bases routes (w.unloaded p visited placed))
    (drops : Drops p r placed trip b rest w next) :
    next.Placed p bases routes (next.unloaded p visited placed) := by
  rw [unloaded_drops absent before.conserved drops]
  exact ⟨drops.conserves before.conserved, drops.agrees before.conserved before.agrees,
    drops.volumes_eq ▸ before.follows,
    (drops.changesAt before.conserved).routeIds_eq.trans before.routes_eq,
    drops.volumes_eq ▸ before.counts⟩

theorem placeRoute_placed {later : List Nat} (split : routes = visited ++ r :: later)
    (before : w.Placed p bases routes (w.unloaded p visited [])) :
    Ends (placeRoute p settings r)
      (fun _ next => next.Placed p bases routes (next.unloaded p (visited ++ [r]) []))
      (fun _ _ => True) w := by
  have absent : r ∉ visited := notMem_of_routeIds_eq (before.routes_eq.trans split)
  refine placeRoute_ends (fun _ _ => trivial) fun plan stops repaired visits => ?_
  obtain ⟨_, _, _, _, changes, own, _⟩ := repairRoute_changes before.conserved repaired
  have begins : Work.Placed p bases routes (Work.unloaded p visited [] { w with plan := plan })
      { w with plan := plan } := by
    rw [unloaded_eq (w := w) [] changes absent fun c member => absurd member List.not_mem_nil]
    exact ⟨repairRoute_conserves before.conserved repaired,
      agrees_of_changesAt before.agrees changes own, before.follows,
      changes.routeIds_eq.trans before.routes_eq, before.counts⟩
  refine (placeBases_ends
    (fun placed _ _ w => openJobs placed = [] ∧
      w.Placed p bases routes (w.unloaded p visited placed))
    (E := fun _ _ => True) (fun _ _ _ _ _ kept => kept)
    (fun placed trip b rest w next location duration kept places =>
      ⟨?_, kept.2.places absent kept.1 places⟩)
    (fun placed trip b rest w next kept drops => ⟨kept.1, kept.2.drops absent drops⟩)
    (fun _ _ _ _ _ _ _ _ _ => trivial) (fun _ _ _ _ _ _ _ _ _ _ _ _ _ _ => trivial) ⟨rfl, begins⟩
    (visiting_start visits)).mono (fun _ next kept => ?_) fun _ _ _ => trivial
  · rw [openJobs_append, tripsOf_lead]
    rfl
  · rcases kept with ⟨placed, trip, ⟨tail, kept⟩, visits⟩
    exact unloaded_route tail visits ▸ kept

/-- The placement of all bases counts each trip once, at the location that was chosen for it. -/
theorem placeAll_exact (conserved : Conserved p.destinations.size bases w.plan)
    (agrees : ∀ r, w.plan.Agrees p r) (follows : w.volumes.Follows p) :
    Ends (placeAll p settings) (fun _ next => next.Exact p bases) (fun _ _ => True) w := by
  simp only [placeAll, ends_bind, ends_modify, ends_get]
  refine (placeRoutes_ends
    (fun visited w' => w'.Placed p bases w.plan.routeIds (w'.unloaded p visited []))
    (fun visited r later _ split before => placeRoute_placed split before) ?_).mono
    (fun _ next last => ?_) fun _ _ _ => trivial
  · exact ⟨conserved, agrees, Volumes.follows_clear follows, rfl, Volumes.counts_clear _⟩
  · exact ⟨last.conserved, last.agrees, last.follows, unloaded_routes last.routes_eq ▸ last.counts⟩

end Work

theorem insertJobs_exact (settings : Settings Rat) (jobs : List Nat) {plan : Plan Rat}
    (conserved : Conserved p.destinations.size bases plan) :
    Ends (Fill.insertJobs p settings jobs) (fun _ f => f.work.Exact p bases) (fun _ _ => True)
      (Fill.start p plan) :=
  Fill.insertJobs_ends (Work.Exact p bases) (E := fun _ _ => True)
    (fun given => insertions_exact settings given conserved)
    fun _ exact => Work.placeAll_exact exact.conserved exact.agrees exact.follows

/-! ### Histories -/

/-- Every site has a volume, each volume is the demand of all jobs on the closed trips that unload
there, and counting anew answers the same. -/
structure Work.TellsVolumes (p : Problem Rat) (w : Work Rat) : Prop where
  sites : ∀ location ∈ p.unloadLocations, ∃ volume, w.volumes.volume location = .ok volume
  volume_eq : ∀ location volume, w.volumes.volume location = .ok volume → ∀ i,
    volume.get i = (p.demandOf ((w.plan.tripsTo location).flatMap (·.jobs))).get i
  recount : ∃ counted, Volumes.rebuild w.plan w.volumes = .ok () counted ∧
    ∀ location i, (counted.volumeAt location).get i = (w.volumes.volumeAt location).get i

theorem Volumes.volume_eq_ok {α : Type} {vs : Volumes α} {location : Nat} {volume : Load α} :
    vs.volume location = .ok volume ↔
      ∃ e, vs.tracked? location = some e ∧ e.volume = volume := by
  simp only [Volumes.volume, bind_eq_ok, entry_eq_ok, Except.ok.injEq]

theorem Work.Exact.tellsVolumes {w : Work Rat} (exact : w.Exact p bases) : w.TellsVolumes p := by
  refine ⟨fun location member => ?_, fun location volume answer i => ?_, ?_⟩
  · obtain ⟨e, found⟩ := Option.isSome_iff_exists.mp (exact.follows.sites location member)
    exact ⟨e.volume, Volumes.volume_eq_ok.mpr ⟨e, found, rfl⟩⟩
  · obtain ⟨e, found, rfl⟩ := Volumes.volume_eq_ok.mp answer
    have amount := exact.counts.amounts location i
    rw [Volumes.volumeAt, found] at amount
    rw [get_demandOf_tripsTo, ← amount]
    rfl
  · have counted : Ends (Volumes.rebuild w.plan) (fun _ next => Volumes.SameLimits w.volumes next ∧
        next.Counts (w.plan.unloads p)) (fun _ _ => ∃ load ∈ w.plan.unloads p,
          (w.volumes.tracked? load.1).isSome = false) w.volumes := rebuild_counts exact.agrees
    unfold Ends at counted
    cases result : Volumes.rebuild w.plan w.volumes with
    | ok answer next =>
        rw [result] at counted
        refine ⟨next, rfl, fun location i => ?_⟩
        rw [counted.2.amounts, exact.counts.amounts]
    | error e next =>
        rw [result] at counted
        obtain ⟨load, member, untracked⟩ := counted
        rw [exact.counts.tracks load member] at untracked
        cases untracked

/-- Whatever was done with a plan since its beginning, the volumes of a further pass tell the truth
from its start on, after every job that has had its turn, and when the bases have been placed. -/
theorem session_tellsVolumes (p : Problem Rat) (size : Nat) :
    ∃ start, Plan.withPool p (.ofSize size) = .ok start ∧
      (size = max p.destinations.size 1 → Plan.empty p = .ok start) ∧
      ∀ (operations : List (Operation Rat)) (settings : Settings Rat) (jobs : List Nat),
        let begins := Fill.start p (stateAfter (session p operations start))
        Ends (Fill.insertions p settings jobs) (fun _ f => f.work.TellsVolumes p)
          (fun _ _ => True) begins ∧
        Ends (Fill.insertJobs p settings jobs) (fun _ f => f.work.TellsVolumes p)
          (fun _ _ => True) begins := by
  obtain ⟨routes, begins, _⟩ := withPool_answers p (.ofSize size)
  refine ⟨_, begins, ?_, fun operations settings jobs => ?_⟩
  · rintro rfl
    exact begins
  · have conserved := session_leaves (Conserved p.destinations.size size)
      (fun operation (_ : operation ∈ operations) _ kept => operation.conserves p kept)
      (withPool_conserves begins)
    exact ⟨(insertions_exact settings jobs conserved).mono
        (fun _ _ exact => exact.tellsVolumes) fun _ _ _ => trivial,
      (insertJobs_exact settings jobs conserved).mono
        (fun _ _ exact => exact.tellsVolumes) fun _ _ _ => trivial⟩

end Haulage

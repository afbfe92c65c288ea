/-
Module: Haulage.Proofs.Fixpoint
Purpose: A plan that serves every job is what the next pass leaves.  The placement that ended the
  pass before took no trip out, so placing all bases a second time finds every base where it would
  put it.
Main exports: Volumes.rebuild_ends, Work.recount_ends, Plan.Holding.refreshBases_self, Work.Settled,
  Work.Settled.keepsLast, recreate_again
-/
import Haulage.Proofs.Fresh
import Haulage.Proofs.PlacedAgain

namespace Haulage

variable {α : Type} [Quantity α]

open Attempt Plan

/-! ### Volumes that are counted anew -/

namespace Volumes

variable {vs next : Volumes α} {loads : List (Nat × Load α)}

omit [Quantity α] in
/-- Volumes that are the same once they are cleared track the same locations. -/
theorem isSome_tracked?_of_clear (same : next.clear = vs.clear) (location : Nat) :
    (next.tracked? location).isSome = (vs.tracked? location).isSome := by
  have tracked := congrArg (fun v : Volumes α => (v.tracked? location).isSome) same
  simpa only [tracked?_clear, Option.isSome_map] using tracked

/-- A load is refused only where volumes are not tracked. -/
theorem add_eq_error {location : Nat} {load : Load α} {e : Failure}
    (failed : vs.add location load = .error e) :
    e = .refused (.untrackedLocation location) ∧ vs.tracked? location = none := by
  rw [add, entry] at failed
  cases there : vs.tracked? location with
  | some entry =>
      rw [there] at failed
      cases failed
  | none =>
      rw [there] at failed
      cases failed
      exact ⟨rfl, rfl⟩

/-- Loads are added without a refusal unless a location is not tracked.  No location is forgotten,
and no limit. -/
theorem addAll_ends (loads : List (Nat × Load α)) (vs : Volumes α) :
    Ends (addAll loads) (fun _ next => next.clear = vs.clear)
      (fun e next => next.clear = vs.clear ∧ ∃ load ∈ loads,
        e = .refused (.untrackedLocation load.1) ∧ vs.tracked? load.1 = none) vs := by
  refine Ends.forM (fun next : Volumes α => next.clear = vs.clear)
    (fun load member now same => ?_) rfl
  simp only [ends_bind, ends_get, ends_ofResult, ends_set]
  refine ⟨fun next added => (clear_add added).trans same, fun e failed => ⟨same, load, member, ?_⟩⟩
  obtain ⟨refused, unknown⟩ := add_eq_error failed
  -- The loads in front have made no location known, and none unknown.
  have alsoUnknown := isSome_tracked?_of_clear same load.1
  rw [unknown] at alsoUnknown
  exact ⟨refused, Option.isNone_iff_eq_none.mp (Option.isSome_eq_false_iff.mp alsoUnknown.symm)⟩

omit [Quantity α] in
/-- What is unloaded, by the ledger, is unloaded by a closed trip of a route. -/
theorem mem_unloadings {plan : Plan α} {load : Nat × Load α} (member : load ∈ unloadings plan) :
    ∃ r ∈ plan.routeIds, ∃ trip, plan.ledger.unloadLocation? r trip = some load.1 := by
  simp only [unloadings, List.mem_flatten, List.mem_map] at member
  rcases member with ⟨_, ⟨r, inside, rfl⟩, among⟩
  obtain ⟨trip, _, entered⟩ := List.mem_filterMap.mp among
  refine ⟨r, inside, trip, ?_⟩
  split at entered
  · rename_i location weight place _
    cases entered
    exact place
  · cases entered

/-- The volumes of a plan can be counted unless the ledger has it unload where none are tracked. -/
theorem rebuild_ends (plan : Plan α) (vs : Volumes α) :
    Ends (rebuild plan) (fun _ next => next.clear = vs.clear)
      (fun e next => next.clear = vs.clear ∧ ∃ load ∈ unloadings plan,
        e = .refused (.untrackedLocation load.1) ∧ vs.tracked? load.1 = none) vs := by
  simp only [rebuild, ends_bind, ends_modify]
  refine (addAll_ends _ vs.clear).mono (fun _ next same => same.trans (clear_clear vs)) ?_
  rintro e next ⟨same, load, member, refused, unknown⟩
  rw [tracked?_clear, Option.map_eq_none_iff] at unknown
  exact ⟨same.trans (clear_clear vs), load, member, refused, unknown⟩

/-- The volumes of a plan can be counted where all its bases lie at tracked locations. -/
theorem rebuild_answers {p : Problem α} {plan : Plan α} (agrees : ∀ r, plan.Agrees p r)
    (tracked : ∀ r stops b location, plan.Visits r stops → .base b ∈ stops →
      plan.pool.locationOf b = some location → (vs.tracked? location).isSome = true) :
    ∃ counted, rebuild plan vs = .ok () counted ∧ counted.clear = vs.clear := by
  obtain ⟨_, counted, done, same⟩ := (rebuild_ends plan vs).answers <| by
    rintro _ _ ⟨_, load, member, _, unknown⟩
    obtain ⟨r, inside, trip, place⟩ := mem_unloadings member
    have visits := visits_of_mem_routeIds inside
    obtain ⟨b, base, lies⟩ := (agrees r).base_of_unloadLocation visits place
    have known := tracked r _ b load.1 visits base lies
    rw [unknown] at known
    cases known
  exact ⟨counted, done, same⟩

theorem rebuild_keepsLimits (plan : Plan α) (vs : Volumes α) :
    Ends (rebuild plan) (fun _ next => next.clear = vs.clear)
      (fun _ next => next.clear = vs.clear) vs :=
  (rebuild_ends plan vs).mono (fun _ _ same => same) fun _ _ failed => failed.1

end Volumes

theorem Work.recount_keepsLimits (p : Problem α) (q : Proposal) (w : Work α) :
    Ends (Work.recount p q w.volumes w.plan) (fun _ next => next.volumes.clear = w.volumes.clear)
      (fun _ next => next.volumes.clear = w.volumes.clear) w := by
  unfold Work.recount
  split
  · exact (ends_within _ _ _).mpr (Volumes.rebuild_keepsLimits w.plan w.volumes)
  · split
    · simp only [ends_bind, ends_ofResult, ends_set]
      exact ⟨fun d _ => ⟨fun counted added => Volumes.clear_add added, fun _ _ => trivial⟩,
        fun _ _ => trivial⟩
    · exact rfl

/-- Once a proposal was carried out, the volumes are brought up to date unless the ledger has the
plan unload where none are tracked. -/
theorem Work.recount_ends {p : Problem α} {q : Proposal} {w : Work α}
    (serves : ∀ job, q.job? = some job → job < p.destinations.size) :
    Ends (Work.recount p q w.volumes w.plan) (fun _ next => next.plan = w.plan)
      (fun e next => next.plan = w.plan ∧ ∃ location,
        e = .refused (.untrackedLocation location) ∧ w.volumes.tracked? location = none ∧
        ((∃ load ∈ Volumes.unloadings w.plan, load.1 = location) ∨
          ∃ trip, w.plan.ledger.unloadLocation? q.route trip = some location)) w := by
  unfold Work.recount
  split
  · apply (ends_within _ _ _).mpr
    refine (Volumes.rebuild_ends w.plan w.volumes).mono (fun _ _ _ => rfl) ?_
    rintro _ _ ⟨_, load, member, refused, unknown⟩
    exact ⟨rfl, load.1, refused, unknown, .inl ⟨load, member, rfl⟩⟩
  · split
    · rename_i location job place first
      have known := serves job first
      have served : p.destination job = .ok p.destinations[job] := orOutOfTable_getElem known
      simp only [ends_bind, ends_ofResult, ends_set]
      refine ⟨fun d _ => ⟨fun _ _ => trivial, fun e failed => ?_⟩, fun e failed => ?_⟩
      · obtain ⟨refused, unknown⟩ := Volumes.add_eq_error failed
        exact ⟨trivial, location, refused, unknown, .inr ⟨q.trip, place⟩⟩
      · cases served.symm.trans failed
    · exact rfl

/-- Once a proposal was carried out, the volumes can be brought up to date where all bases lie at
tracked locations. -/
theorem Work.recount_answers {p : Problem α} {q : Proposal} {w : Work α}
    (agrees : ∀ r, w.plan.Agrees p r)
    (tracked : ∀ b location, w.plan.pool.locationOf b = some location →
      (w.volumes.tracked? location).isSome = true)
    (serves : ∀ job, q.job? = some job → job < p.destinations.size)
    (visits : ∃ stops, w.plan.Visits q.route stops) :
    ∃ counted, Work.recount p q w.volumes w.plan w = .ok () ⟨w.plan, counted⟩ ∧
      counted.clear = w.volumes.clear := by
  have lies {r trip location : Nat} {stops : List Stop} (visits : w.plan.Visits r stops)
      (place : w.plan.ledger.unloadLocation? r trip = some location) :
      (w.volumes.tracked? location).isSome = true := by
    obtain ⟨b, _, there⟩ := (agrees r).base_of_unloadLocation visits place
    exact tracked b location there
  obtain ⟨stops, visited⟩ := visits
  have ends := (Work.recount_ends (w := w) serves).and (Work.recount_keepsLimits p q w)
  obtain ⟨_, ⟨plan, counted⟩, done, unchanged, same⟩ := ends.answers <| by
    rintro _ _ ⟨⟨_, location, _, unknown, ⟨load, member, rfl⟩ | ⟨trip, place⟩⟩, _⟩
    · obtain ⟨r, inside, trip, place⟩ := Volumes.mem_unloadings member
      have known := lies (visits_of_mem_routeIds inside) place
      rw [unknown] at known
      cases known
    · have known := lies visited place
      rw [unknown] at known
      cases known
  obtain rfl : plan = w.plan := unchanged
  exact ⟨counted, done, same⟩

/-! ### A pass counts on the volumes it begins with -/

theorem insertions_keepLimits {p : Problem α} {settings : Settings α} (given : List Nat)
    (f : Fill α) :
    Ends (Fill.insertions p settings given)
      (fun _ g => g.work.volumes.clear = f.work.volumes.clear)
      (fun _ g => g.work.volumes.clear = f.work.volumes.clear) f := by
  refine Fill.insertions_ends (fun w => w.volumes.clear = f.work.volumes.clear)
    (E := fun _ w => w.volumes.clear = f.work.volumes.clear) ?_ fun job g same => ?_
  · refine Fill.prepare_ends (J := fun w => w.volumes.clear = f.work.volumes.clear)
      (E := fun _ w => w.volumes.clear = f.work.volumes.clear) (fun _ _ => rfl)
      (fun _ _ _ _ => rfl) fun _ fresh _ _ =>
        Volumes.rebuild_keepsLimits fresh f.work.volumes
  · refine Fill.insertJob_ends (fun w => w.volumes.clear = f.work.volumes.clear)
      (E := fun _ w => w.volumes.clear = f.work.volumes.clear) same (fun _ _ same _ _ => same)
      (fun _ _ same => same) fun w q same _ => ?_
    apply Work.commit_ends (fun _ _ => same)
    refine ends_of_forall (fun _ plan => ⟨fun _ _ => same, fun fresh _ => ?_⟩) fun _ _ => same
    exact (Work.recount_keepsLimits p q { w with plan := fresh }).mono
      (fun _ _ now => now.trans same) fun _ _ now => now.trans same

/-! ### The pool -/

omit [Quantity α] in
/-- A pool that agrees with the routes, and of which all free bases are cleared, is not changed. -/
theorem Plan.Holding.refreshBases_self {jobs bases : Nat} {plan : Plan α}
    (conserved : Conserved jobs bases plan) : plan.refreshBases = .ok plan := by
  obtain ⟨pooled, done⟩ := conserved.orderly.refreshBases_answers
  rw [done]
  simp only [Plan.refreshBases, bind_eq_ok] at done
  rcases done with ⟨pool, refreshed, equal⟩
  cases equal
  suffices same : pool = plan.pool by rw [same]
  rw [BasePool.refresh] at refreshed
  split_ifs at refreshed
  cases refreshed
  rcases here : plan.pool with ⟨entries⟩
  congr 1
  apply List.ext_getElem?
  intro b
  rw [List.getElem?_mapIdx]
  cases found : entries[b]? with
  | none => rfl
  | some e =>
      have once := conserved.once (.base b)
      have inside : b < bases := by
        rw [← conserved.size_eq, BasePool.size, here]
        exact (List.getElem?_eq_some_iff.mp found).1
      have isFree : plan.pool.isFree b = e.isFree := by simp [BasePool.isFree, here, found]
      simp only [tally, waiting, isFree, knows, inside, decide_true, Bool.toNat_true,
        List.count_nil, Nat.add_zero] at once
      simp only [Option.map_some, List.contains_iff_mem, mem_routed]
      split_ifs with visited
      · cases free : e.isFree with
        | true =>
            rw [free, Bool.toNat_true] at once
            omega
        | false => rw [← free]
      · have free : e.isFree = true := by
          by_contra taken
          rw [Bool.eq_false_iff.mpr taken, Bool.toNat_false] at once
          omega
        have member : e ∈ plan.pool.entries := by
          rw [here]
          exact List.mem_of_getElem? found
        obtain ⟨nowhere, none⟩ := conserved.cleared e member free
        rcases e with ⟨⟨id, location, duration⟩, isFree⟩
        cases nowhere
        cases none
        cases free
        rfl

/-! ### What a placement takes out, and where it puts bases -/

/-- The visit of a route under way.  What was placed lies where volumes are tracked, and of the jobs
that were there some are left, in their order. -/
structure Settling (jobs bases : Nat) (served : List Nat) (placed : List Stop) (trip : List Nat)
    (rest : List Stop) (w : Work α) : Prop where
  conserved : Conserved jobs bases w.plan
  tracked : ∀ b location, .base b ∈ placed → w.plan.pool.locationOf b = some location →
    (w.volumes.tracked? location).isSome = true
  fewer : (jobsIn (placed ++ (trip.map .destination ++ rest))).Sublist served

/-- A placement under way.  On the routes visited so far all bases lie where volumes are tracked, and
no route has jobs that it did not have before. -/
structure Work.Settled (jobs bases : Nat) (plan : Plan α) (visited : List Nat) (w : Work α) :
    Prop where
  conserved : Conserved jobs bases w.plan
  size_eq : w.plan.itineraries.length = plan.itineraries.length
  tracked : ∀ r ∈ visited, ∀ stops b location, w.plan.Visits r stops → .base b ∈ stops →
    w.plan.pool.locationOf b = some location → (w.volumes.tracked? location).isSome = true
  fewer : ∀ r stops now, plan.Visits r stops → w.plan.Visits r now →
    (jobsIn now).Sublist (jobsIn stops)

section

variable {p : Problem α} {settings : Settings α} {jobs bases r b location : Nat}
  {served : List Nat} {placed rest : List Stop} {trip : List Nat} {duration : Duration}
  {w next : Work α}

theorem Settling.places (settling : Settling jobs bases served placed trip (.base b :: rest) w)
    (places : Places p settings r placed trip b rest location duration w next) :
    Settling jobs bases served (placed ++ (trip.map .destination ++ [.base b])) [] rest next := by
  obtain ⟨e, found, _⟩ := Volumes.isLoadable_eq_true.mp places.loadable
  have limits := (Volumes.sameLimits_add places.volumes_eq).isSome_eq
  refine ⟨places.conserves settling.conserved, fun c place member lies => ?_, ?_⟩
  · rw [limits]
    by_cases own : b = c
    · subst own
      rw [places.locationOf_self] at lies
      cases lies
      rw [found]
      rfl
    · rw [places.locationOf_of_ne own] at lies
      have before : Stop.base c ∈ placed := by simpa [Ne.symm own] using member
      exact settling.tracked c place before lies
  · have fewer := settling.fewer
    simpa using fewer

theorem Settling.drops (settling : Settling jobs bases served placed trip (.base b :: rest) w)
    (drops : Drops p r placed trip b rest w next) :
    Settling jobs bases served placed [] rest next := by
  refine ⟨drops.conserves settling.conserved, fun c place member lies => ?_, ?_⟩
  · rw [drops.volumes_eq]
    rw [drops.locationOf_eq settling.conserved (List.mem_append_left _ member)] at lies
    exact settling.tracked c place member lies
  · refine List.Sublist.trans ?_ settling.fewer
    simp only [List.map_nil, List.nil_append, jobsIn_append, jobsIn_destinations, jobsIn_base]
    exact (List.Sublist.refl _).append (List.sublist_append_right _ _)

theorem placeRoute_settles (conserved : Conserved jobs bases w.plan)
    (before : w.plan.Visits r rest) :
    Ends (Work.placeRoute p settings r) (fun _ next => ∃ now, next.plan.Visits r now ∧
      Settling jobs bases (jobsIn rest) now [] [] next) (fun _ _ => True) w := by
  refine Work.placeRoute_ends (fun _ _ => trivial) fun plan stops repaired visits => ?_
  obtain ⟨vehicle, old, found, changed, _⟩ := repairRoute_changes conserved repaired
  have same : jobsIn stops = jobsIn rest := by
    rcases before with ⟨_, there⟩
    rcases visits with ⟨_, now⟩
    cases found.symm.trans there
    rw [changed, List.getElem?_set_self (List.getElem?_eq_some_iff.mp found).1] at now
    cases now
    exact jobsIn_splitIdleBases true _
  have begins : Settling jobs bases (jobsIn rest) [] [] stops { w with plan := plan } := by
    refine ⟨repairRoute_conserves conserved repaired, fun c _ member _ => ?_, ?_⟩
    · exact absurd member List.not_mem_nil
    · rw [← same]
      exact .refl _
  refine (Work.placeBases_ends (fun placed trip rest w => Settling jobs bases _ placed trip rest w)
    (E := fun _ _ => True) (fun placed trip job rest w settling => ?_)
    (fun _ _ _ _ _ _ _ _ settling places => settling.places places)
    (fun _ _ _ _ _ _ settling drops => settling.drops drops) (fun _ _ _ _ _ _ _ _ _ => trivial)
    (fun _ _ _ _ _ _ _ _ _ _ _ _ _ _ => trivial) begins (Work.visiting_start visits)).mono
    (fun _ next ends => ?_) fun _ _ _ => trivial
  · have fewer := settling.fewer
    exact ⟨settling.conserved, settling.tracked, by simpa using fewer⟩
  · rcases ends with ⟨placed, trip, settling, now⟩
    refine ⟨_, now, settling.conserved, fun c place member => ?_, ?_⟩
    · exact settling.tracked c place (by simpa using member)
    · have fewer := settling.fewer
      simpa using fewer

/-- The visit of one more route settles it and leaves the others as they are. -/
theorem Work.Settled.visit {plan : Plan α} {visited later : List Nat}
    (split : plan.routeIds = visited ++ r :: later) (settled : w.Settled jobs bases plan visited) :
    Ends (Work.placeRoute p settings r)
      (fun _ next => next.Settled jobs bases plan (visited ++ [r])) (fun _ _ => True) w := by
  have member : r ∈ w.plan.routeIds := by
    have inside : r ∈ plan.routeIds := by simp [split]
    have size := settled.size_eq
    simp only [itineraries, List.length_map] at size
    rwa [routeIds, size]
  have visits := visits_of_mem_routeIds member
  refine ((placeRoute_revisits settled.conserved).and
    (placeRoute_settles settled.conserved visits)).mono (fun _ next ends => ?_) fun _ _ _ => trivial
  obtain ⟨revisits, own, visitsNow, settling⟩ := ends
  have changes := revisits.changes
  refine ⟨revisits.conserved, changes.length_eq.trans settled.size_eq,
    fun i among stops c place there base lies => ?_, fun i stops now before after => ?_⟩
  · by_cases same : r = i
    · subst same
      cases visitsNow.unique there
      exact settling.tracked c place base lies
    · rw [Volumes.isSome_tracked?_of_clear revisits.cleared]
      have there := (changes.toChangesOnly.visits same).mp there
      rw [changes.locations i stops c same there base] at lies
      have earlier : i ∈ visited := by simpa [Ne.symm same] using among
      exact settled.tracked i earlier stops c place there base lies
  · by_cases same : r = i
    · subst same
      cases visitsNow.unique after
      have fewer := settling.fewer
      simp only [List.map_nil, List.append_nil] at fewer
      exact fewer.trans (settled.fewer r stops _ before visits)
    · exact settled.fewer i stops now before ((changes.toChangesOnly.visits same).mp after)

theorem placeAll_settles {plan : Plan α} {volumes : Volumes α}
    (conserved : Conserved jobs bases plan) :
    Ends (Work.placeAll p settings)
      (fun _ next => next.Settled jobs bases plan plan.routeIds) (fun _ _ => True)
      ⟨plan, volumes⟩ := by
  simp only [Work.placeAll, ends_bind, ends_modify, ends_get]
  refine Work.placeRoutes_ends (fun visited w => w.Settled jobs bases plan visited)
    (fun visited r later _ split settled => settled.visit split) ?_
  refine ⟨conserved, rfl, fun _ member => absurd member List.not_mem_nil,
    fun r stops now before after => ?_⟩
  cases before.unique after
  exact .refl _

omit [Quantity α] in
/-- Where every job is served in the end, no route has lost one. -/
theorem Work.Settled.keepsLast {plan : Plan α} {visited : List Nat}
    (conserved : Conserved jobs bases plan) (settled : w.Settled jobs bases plan visited)
    (complete : w.plan.unassigned = []) (r : Nat) : plan.KeepsLast r w.plan := by
  intro stops now before after
  have fewer := settled.fewer r stops now before after
  have all : jobsIn stops ⊆ jobsIn now := by
    intro job served
    -- The job is served somewhere, on a route that served it before.
    have member : Stop.destination job ∈ stops := mem_jobsIn.mp served
    have known := conserved.once (.destination job)
    have once := settled.conserved.once (.destination job)
    have visited := routed_pos_of_visits before member
    have bound := Bool.toNat_le (knows jobs bases (.destination job))
    simp only [tally, waiting, complete, List.count_nil, Nat.add_zero, Nat.zero_add] at known once
    obtain ⟨i, route, found, counted, _⟩ := onlyOnce_of_routed_eq_one
      (show w.plan.routed (.destination job) = 1 by omega)
    have there : w.plan.Visits i route.stops := visits_of_route found
    have here : Stop.destination job ∈ route.stops := List.count_pos_iff.mp (by omega)
    have inside : i ∈ plan.routeIds := by
      have size := settled.size_eq
      simp only [itineraries, List.length_map] at size
      rw [routeIds, ← size]
      exact there.mem_routeIds
    have origin := visits_of_mem_routeIds inside
    have kept := (settled.fewer i _ _ origin there).subset (mem_jobsIn.mpr here)
    have same : r = i := by
      by_contra apart
      exact (conserved.once_of_visits before member).2 i _ apart origin (mem_jobsIn.mp kept)
    subst same
    cases there.unique after
    exact mem_jobsIn.mpr here
  have distinct := conserved.nodup_jobsIn before
  have equal := fewer.eq_of_length_le (List.subperm_of_subset distinct all).length_le
  exact equal ▸ List.suffix_refl _

end

/-! ### The next pass -/

/-- Where no job is unassigned, a pass over all unassigned jobs is one over no jobs. -/
theorem recreate_of_complete {p : Problem α} {settings : Settings α} {f : Fill α}
    (complete : f.work.plan.unassigned = []) :
    Fill.recreate p settings f = Fill.insertJobs p settings [] f := by
  obtain ⟨generator, sorted⟩ : ∃ generator, settings.parameters.order.sort p
      (Generator.ofSeed settings.parameters.seed) [] = .ok ([], generator) := by
    cases settings.parameters.order with
    | asGiven => exact ⟨_, rfl⟩
    | random => exact ⟨_, rfl⟩
    | demand => exact ⟨_, rfl⟩
    | far => exact ⟨_, rfl⟩
    | close => exact ⟨_, rfl⟩
    | timeWindow => exact ⟨_, rfl⟩
  rw [Fill.recreate, get_bind, complete, ofResult_bind_of_ok sorted]

/-- A pass over no jobs leaves a plan as it is, of which nothing is out of date and which a placement
with volumes that are counted anew leaves as it is. -/
theorem insertJobs_nil {p : Problem α} {settings : Settings α} {plan : Plan α}
    {volumes : Volumes α} (upToDate : plan.UpToDate p) (pool : plan.refreshBases = .ok plan)
    (tracked : ∀ r stops b location, plan.Visits r stops → .base b ∈ stops →
      plan.pool.locationOf b = some location →
      ((Volumes.ofSites p.sites).tracked? location).isSome = true)
    (again : ∀ counted : Volumes α, counted.clear = (Volumes.ofSites p.sites).clear →
      Work.placeAll p settings ⟨plan, counted⟩ = .ok [] ⟨plan, volumes⟩) :
    Fill.insertJobs p settings [] (.start p plan) =
      .ok plan.unassigned ⟨⟨plan, volumes⟩, true, []⟩ := by
  have routes : plan.refreshRoutes p = .ok plan := refreshRoutes_eq_self.mpr upToDate
  obtain ⟨counted, done, cleared⟩ :=
    Volumes.rebuild_answers (fun r => refreshRoutes_agrees routes r) tracked
  have prepares : Fill.prepare p (.start p plan) = .ok () ⟨⟨plan, counted⟩, true, []⟩ := by
    simp only [Fill.prepare, Fill.updatePlan, Fill.start, bind_assoc, get_bind]
    rw [ofResult_bind_of_ok pool, set_bind, get_bind, ofResult_bind_of_ok routes, set_bind, get_bind]
    exact within_answers.mpr ⟨_, within_answers.mpr ⟨_, done, rfl⟩, rfl⟩
  rw [Fill.insertJobs_eq_insertions, ite_self]
  apply bind_answers.mpr
  refine ⟨(), ⟨⟨plan, counted⟩, true, []⟩, bind_answers.mpr ⟨(), _, prepares, rfl⟩, ?_⟩
  refine bind_answers.mpr ⟨[], ⟨⟨plan, volumes⟩, true, []⟩, ?_, rfl⟩
  exact within_answers.mpr ⟨_, again counted cleared, rfl⟩

/-- After a pass that leaves no job unassigned, one more pass over all unassigned jobs leaves none
either, and it changes nothing: neither the stops of a route nor its times, neither where a base lies
nor how long it takes there, neither what the ledger holds nor which bases are free. -/
theorem recreate_again (p : Problem α) (settings : Settings α) {jobs bases : Nat} {plan : Plan α}
    {given : List Nat} {f : Fill α} (orderly : Orderly jobs bases plan)
    (complete : Fill.insertJobs p settings given (.start p plan) = .ok [] f) :
    ∃ g, Fill.recreate p settings (.start p f.work.plan) = .ok [] g ∧
      g.work.plan = f.work.plan := by
  rw [Fill.insertJobs_eq_insertions] at complete
  obtain ⟨_, before, inserted, rest⟩ := bind_answers.mp complete
  obtain ⟨removed, after, placed, last⟩ := bind_answers.mp rest
  obtain ⟨served, rfl⟩ : after.work.plan.unassigned = [] ∧ after = f := by
    simpa [pure, EStateM.pure] using last
  obtain ⟨next, done, rfl⟩ := within_answers.mp placed
  have refreshes : Ends (Fill.insertions p settings (if settings.isStopped then [] else given))
      (fun _ g => g.work.Fresh p jobs bases) _ (.start p plan) := insertions_fresh _ orderly
  have begins := refreshes.and (insertions_keepLimits _ _)
  rw [Ends, inserted] at begins
  obtain ⟨fresh, limits⟩ : before.work.Fresh p jobs bases ∧
    before.work.volumes.clear = (Volumes.ofSites p.sites).clear := begins
  have ends : Ends (Work.placeAll p settings) _ _ before.work :=
    ((placeAll_fresh fresh).and (placeAll_settles fresh.conserved)).and
      (Work.placeAll_repeats fresh.conserved)
  rw [Ends, done] at ends
  obtain ⟨⟨freshNow, settled⟩, repeats⟩ := ends
  have keeps := settled.keepsLast fresh.conserved served
  have routes : next.plan.routeIds = before.work.plan.routeIds := by
    rw [routeIds, routeIds, repeats.size_eq]
  have same : next.volumes.clear = (Volumes.ofSites p.sites).clear :=
    (repeats.cleared.trans (Volumes.clear_clear _)).trans limits
  have again (counted : Volumes α) (cleared : counted.clear = (Volumes.ofSites p.sites).clear) :
      Work.placeAll p settings ⟨next.plan, counted⟩ = .ok [] ⟨next.plan, next.volumes⟩ := by
    show Work.placeRoutes p settings next.plan.routeIds ⟨next.plan, counted.clear⟩ = _
    rw [routes, cleared, ← limits]
    exact repeats.again (fun r _ => keeps r) next.plan fun r _ => .refl r next.plan
  have pass := insertJobs_nil freshNow.upToDate freshNow.conserved.refreshBases_self
    (fun r stops b location visits member lies => ?_) again
  · refine ⟨⟨⟨next.plan, next.volumes⟩, true, []⟩, ?_, rfl⟩
    have served : next.plan.unassigned = [] := served
    exact (recreate_of_complete served).trans (served ▸ pass)
  · rw [← Volumes.isSome_tracked?_of_clear same]
    have inside : r ∈ before.work.plan.routeIds := routes ▸ visits.mem_routeIds
    exact settled.tracked r inside stops b location visits member lies

/-- With both jobs served, each in a trip of its own, the next pass leaves the plan as it is. -/
theorem recreate_again_twoJobs :
    let settings := Settings.forProblem twoJobs .standard
    ∃ empty f g, Plan.empty twoJobs = .ok empty ∧ Orderly 2 2 empty ∧
      Fill.insertJobs twoJobs settings [0, 1] (.start twoJobs empty) = .ok [] f ∧
      f.work.plan.itineraries = [(0, [.destination 0, .base 0, .destination 1, .base 1])] ∧
      Fill.recreate twoJobs settings (.start twoJobs f.work.plan) = .ok [] g ∧
      g.work.plan = f.work.plan := by
  intro settings
  have run : (Plan.empty twoJobs >>= fun empty =>
      answer ((do
        let left ← Fill.insertJobs twoJobs settings [0, 1]
        return (left, (← get).work.plan.itineraries)) (Fill.start twoJobs empty))) =
      .ok ([], [(0, [.destination 0, .base 0, .destination 1, .base 1])]) := by decide +kernel
  simp only [bind_eq_ok, answer_eq_ok] at run
  obtain ⟨empty, begins, _, both⟩ := run
  obtain ⟨left, f, complete, answers⟩ := bind_answers.mp both
  obtain ⟨⟨rfl, itineraries⟩, rfl⟩ : (left = [] ∧ f.work.plan.itineraries = _) ∧ f = _ := by
    simpa [pure, EStateM.pure] using answers
  have orderly : Orderly 2 2 empty := (withPool_conserves begins).orderly
  obtain ⟨g, again, same⟩ := recreate_again twoJobs settings orderly complete
  exact ⟨empty, f, g, begins, orderly, complete, itineraries, again, same⟩

end Haulage

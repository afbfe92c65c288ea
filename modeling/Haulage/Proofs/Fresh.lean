/-
Module: Haulage.Proofs.Fresh
Purpose: Plans of which nothing is out of date.  Passes, insertions of bases and removals refresh
  each route that they change, so that over a whole history a refresh of all routes changes nothing,
  and a pass does not depend on times and ledger as it finds them.
Main exports: Plan.UpToDate, Plan.refreshRoutes_eq_self, commit_upToDate, placeAll_upToDate,
  insertJobs_of_refreshRoutes, session_staysFresh
-/
import Haulage.Proofs.Current
import Haulage.Proofs.Orderly

namespace Haulage

variable {α : Type} [Quantity α]

open Attempt Plan

/-- The times of every route and what the ledger holds about it follow from its stops. -/
def Plan.UpToDate (p : Problem α) (plan : Plan α) : Prop :=
  ∀ r < plan.routes.length, ∃ route, plan.Current p r route

/-! ### Refreshing all routes -/

section

variable {p : Problem α} {plan next fresh : Plan α} {r i : Nat} {jobs bases : Nat}

/-- What a refresh of one route brings up to date, and what it leaves so. -/
theorem current_of_refreshRoute (done : plan.refreshRoute p r = .ok next)
    (current : i = r ∨ ∃ route, plan.Current p i route) : ∃ route, next.Current p i route := by
  by_cases own : r = i
  · subst own
    obtain ⟨_, _, _, found, _⟩ := refreshRoute_eq_ok done
    obtain ⟨fresh, now, _⟩ := current_refreshRoute found done
    exact ⟨fresh, now⟩
  · obtain ⟨route, before⟩ := current.resolve_left fun same => own same.symm
    exact ⟨route, before.congr ((ChangesAt.refreshRoute done).sameRoute own)⟩

/-- A refresh of all routes brings everything up to date. -/
theorem upToDate_of_refreshRoutes (done : plan.refreshRoutes p = .ok next) : next.UpToDate p := by
  suffices along : ∀ (routes : List Nat) (plan : Plan α),
      (∀ i < plan.routes.length, i ∈ routes ∨ ∃ route, plan.Current p i route) →
      routes.foldlM (Plan.refreshRoute p) plan = .ok next → next.UpToDate p from
    along plan.routeIds plan (fun i inside => .inl (List.mem_range.mpr inside)) done
  intro routes
  induction routes with
  | nil =>
      intro plan current done
      cases done
      exact fun i inside => (current i inside).resolve_left List.not_mem_nil
  | cons r routes inductionHypothesis =>
      intro plan current done
      rw [List.foldlM_cons, bind_eq_ok] at done
      rcases done with ⟨middle, head, tail⟩
      refine inductionHypothesis middle (fun i inside => ?_) tail
      rw [(changesOnly_refreshRoute head).size_eq] at inside
      rcases current i inside with member | already
      · rcases List.mem_cons.mp member with same | later
        · exact .inr (current_of_refreshRoute head (.inl same))
        · exact .inl later
      · exact .inr (current_of_refreshRoute head (.inr already))

/-- A refresh of all routes changes nothing exactly where nothing is out of date. -/
theorem Plan.refreshRoutes_eq_self : plan.refreshRoutes p = .ok plan ↔ plan.UpToDate p := by
  refine ⟨upToDate_of_refreshRoutes, fun upToDate => ?_⟩
  suffices along : ∀ routes : List Nat, (∀ r ∈ routes, r < plan.routes.length) →
      routes.foldlM (Plan.refreshRoute p) plan = .ok plan from
    along plan.routeIds fun r member => List.mem_range.mp member
  intro routes inside
  induction routes with
  | nil => rfl
  | cons r routes inductionHypothesis =>
      obtain ⟨route, current⟩ := upToDate r (inside r List.mem_cons_self)
      rw [List.foldlM_cons, bind_eq_ok]
      exact ⟨plan, current.refreshRoute,
        inductionHypothesis fun i member => inside i (List.mem_cons_of_mem r member)⟩

/-- The ledger agrees with every route. -/
theorem Plan.UpToDate.agrees (upToDate : plan.UpToDate p) (r : Nat) : plan.Agrees p r := by
  intro stops visits
  obtain ⟨route, current⟩ := upToDate r (List.mem_range.mp visits.mem_routeIds)
  exact current.agrees stops visits

/-! ### Edits -/

theorem Plan.UpToDate.congr (upToDate : plan.UpToDate p)
    (size_eq : next.routes.length = plan.routes.length)
    (same : ∀ i, SameRoute i plan next) : next.UpToDate p := by
  intro i inside
  obtain ⟨route, current⟩ := upToDate i (size_eq ▸ inside)
  exact ⟨route, current.congr (same i)⟩

theorem Plan.UpToDate.changed (upToDate : plan.UpToDate p) (changes : ChangesAt r plan next)
    (own : ∃ route, next.Current p r route) : next.UpToDate p := by
  intro i inside
  by_cases same : r = i
  · exact same ▸ own
  · obtain ⟨route, current⟩ := upToDate i (changes.size_eq ▸ inside)
    exact ⟨route, current.congr (changes.sameRoute same)⟩

/-- Once the changed route is refreshed, everything is up to date again. -/
theorem Plan.UpToDate.refreshed (upToDate : plan.UpToDate p) (changes : ChangesAt r plan next)
    (done : next.refreshRoute p r = .ok fresh) : fresh.UpToDate p :=
  upToDate.changed (changes.trans (.refreshRoute done)) (current_of_refreshRoute done (.inl rfl))

omit [Quantity α] in
theorem sameRoute_refreshBases (done : plan.refreshBases = .ok next) : SameRoute r plan next := by
  simp only [Plan.refreshBases, bind_eq_ok] at done
  rcases done with ⟨pool, refreshed, equal⟩
  cases equal
  refine ⟨rfl, ?_, rfl, Nat.le_refl _⟩
  rintro stops b ⟨vehicle, found⟩ member
  obtain ⟨route, here, _, rfl⟩ := itineraries_eq_some.mp found
  refine BasePool.base_refresh refreshed ?_ member
  exact List.mem_map.mpr ⟨route, List.mem_of_getElem? here, rfl⟩

theorem Plan.UpToDate.refreshBases (upToDate : plan.UpToDate p)
    (done : plan.refreshBases = .ok next) : next.UpToDate p := by
  refine upToDate.congr ?_ fun i => sameRoute_refreshBases done
  have kept := congrArg List.length (refreshBases_keeps done).1
  simpa [itineraries] using kept

/-- Marks for the job at hand are not refreshed. -/
theorem Plan.UpToDate.marks {ledger : Ledger α} (upToDate : plan.UpToDate p)
    (same : SameMarks ledger plan.ledger)
    (enters : plan.ledger.routes.length ≤ ledger.routes.length) :
    Plan.UpToDate p { plan with ledger := ledger } := by
  intro i inside
  obtain ⟨route, current⟩ := upToDate i inside
  obtain ⟨entry, derived, equal⟩ := current.derived
  refine ⟨route, current.found, current.times, current.entered.trans_le enters, entry, derived, ?_⟩
  have marks := same i
  rw [← equal] at marks
  have entered := congrArg
    (fun e : RouteEntry α => { e with needsBase := (ledger.entry i).needsBase }) marks
  exact entered.symm

end

/-- An orderly plan of which nothing is out of date. -/
structure Plan.Kept (p : Problem α) (jobs bases : Nat) (plan : Plan α) : Prop where
  orderly : Orderly jobs bases plan
  upToDate : plan.UpToDate p

/-- A plan under way that conserves all stops, and of which nothing is out of date. -/
structure Work.Fresh (p : Problem α) (jobs bases : Nat) (w : Work α) : Prop where
  conserved : Conserved jobs bases w.plan
  upToDate : w.plan.UpToDate p

theorem Work.Fresh.kept {p : Problem α} {jobs bases : Nat} {w : Work α}
    (fresh : w.Fresh p jobs bases) : w.plan.Kept p jobs bases :=
  ⟨fresh.conserved.orderly, fresh.upToDate⟩

/-- A refusal leaves an orderly plan of which nothing is out of date. -/
def LeavesKept (p : Problem α) (jobs bases : Nat) (e : Failure) (w : Work α) : Prop :=
  ∀ reason, e = .refused reason → w.plan.Kept p jobs bases

theorem leavesKept_of_fault {p : Problem α} {jobs bases : Nat} {e : Failure}
    (fault : ∀ reason, e ≠ .refused reason) (w : Work α) : LeavesKept p jobs bases e w :=
  fun reason refused => absurd refused (fault reason)

/-! ### Taking up an offer -/

section

variable {p : Problem α} {provider : LocationProvider α} {q : Proposal} {w : Work α}
  {jobs bases : Nat}

/-- Of the changes that an offer consists of all are made, or none. -/
theorem Serves.changesAll {job : Nat} (conserved : Conserved jobs bases w.plan)
    (serves : Serves p w.plan w.volumes provider job q) :
    Ends (makeChanges q.changes) (fun _ next => ChangesAt q.route w.plan next)
      (fun _ next => next = w.plan) w.plan := by
  rcases serves with ⟨route, v, d, found, _, _, _, offer⟩
  rcases offer with ⟨before, after, joins⟩ | ⟨b, location, duration, opens⟩
  · exact joins.ends_changes (fun _ inserted => ChangesAt.insertStop inserted) fun _ => rfl
  · rw [opens.changes_eq]
    refine ends_opening conserved (visits_of_route found)
      (BasePool.isFree_of_lowestFree? opens.lowest) (fun _ => rfl) ?_
    exact fun closed closes => closes.changes

theorem SplitsTrip.changesAll {route : Route} {b job location : Nat} {duration : Duration}
    {before after : List Stop} {load : Load α} (conserved : Conserved jobs bases w.plan)
    (lowest : w.plan.pool.lowestFree? = some b) (found : w.plan.routes[q.route]? = some route)
    (splits : SplitsTrip w.plan w.volumes provider route b job location duration before after load
      q) :
    Ends (makeChanges q.changes) (fun _ next => ChangesAt q.route w.plan next)
      (fun _ next => next = w.plan) w.plan := by
  rw [splits.changes_behind]
  apply ends_closing conserved (splits.visits found) (BasePool.isFree_of_lowestFree? lowest)
  exact fun closed closes => closes.changes

/-- An offer of which all changes are made, or none, is taken up with a refresh of its route. -/
theorem commit_fresh (fresh : w.Fresh p jobs bases)
    (all : Ends (makeChanges q.changes) (fun _ next => ChangesAt q.route w.plan next)
      (fun _ next => next = w.plan) w.plan)
    (conserves : Ends (Fill.commit p q) (fun _ next => Conserved jobs bases next.plan)
      (fun _ next => Conserved jobs bases next.plan) w) :
    Ends (Fill.commit p q) (fun _ next => next.Fresh p jobs bases) (LeavesKept p jobs bases) w := by
  have refreshes : Ends (Fill.commit p q) (fun _ next => next.plan.UpToDate p)
      (fun e next => ∀ reason, e = .refused reason → next.plan.UpToDate p) w := by
    refine Work.commit_ends (fun _ _ _ _ => fresh.upToDate) (all.mono (fun _ plan changes => ?_) ?_)
    · refine ⟨fun e failed reason refused => ?_, fun now refreshed => ?_⟩
      · have fault := (NeverRefuses.refreshRoute p plan q.route).isFault failed
        exact absurd refused (fault reason)
      · have upToDate : now.UpToDate p := fresh.upToDate.refreshed changes refreshed
        refine (Work.recount_plan p q w.volumes { w with plan := now }).mono
          (fun _ next same => ?_) fun _ next same _ _ => ?_
        · exact same ▸ upToDate
        · exact same ▸ upToDate
    · rintro e plan rfl
      exact fun _ _ => fresh.upToDate
  refine (conserves.and refreshes).mono (fun _ _ now => ⟨now.1, now.2⟩) fun e next left => ?_
  exact fun reason refused => ⟨left.1.orderly, left.2 reason refused⟩

end

/-! ### Passes -/

section

variable {p : Problem α} {settings : Settings α} {jobs bases r : Nat} {f : Fill α} {w : Work α}

/-- A refresh of the pool is all that an orderly plan lacks. -/
theorem Plan.Kept.refreshBases {plan pooled : Plan α} (kept : plan.Kept p jobs bases)
    (volumes : Volumes α) (done : plan.refreshBases = .ok pooled) :
    Work.Fresh p jobs bases ⟨pooled, volumes⟩ :=
  ⟨kept.orderly.refreshBases done, kept.upToDate.refreshBases done⟩

theorem prepare_fresh (orderly : Orderly jobs bases f.work.plan) :
    Ends (Fill.prepare p) (fun _ g => g.work.Fresh p jobs bases)
      (fun e g => LeavesKept p jobs bases e g.work) f := by
  refine Fill.prepare_ends (E := LeavesKept p jobs bases)
    (fun e failed => leavesKept_of_fault ((NeverRefuses.refreshBases _).isFault failed) _)
    (fun pooled e pool failed =>
      leavesKept_of_fault ((NeverRefuses.refreshRoutes p pooled).isFault failed) _)
    fun pooled fresh pool refreshed => ?_
  have now (volumes : Volumes α) : Work.Fresh p jobs bases ⟨fresh, volumes⟩ :=
    ⟨Holding.refreshRoutes (orderly.refreshBases pool) refreshed,
      upToDate_of_refreshRoutes refreshed⟩
  exact ends_of_forall (fun _ volumes => now volumes) fun _ volumes _ _ => (now volumes).kept

theorem insertions_fresh (given : List Nat) (orderly : Orderly jobs bases f.work.plan) :
    Ends (Fill.insertions p settings given) (fun _ g => g.work.Fresh p jobs bases)
      (fun e g => LeavesKept p jobs bases e g.work) f := by
  refine Fill.insertions_ends (Work.Fresh p jobs bases) (E := LeavesKept p jobs bases)
    (prepare_fresh orderly) fun job g fresh => ?_
  refine Fill.insertJob_ends (Work.Fresh p jobs bases) (E := LeavesKept p jobs bases) fresh
    (fun w ledger fresh same enters => ?_) (fun _ _ fresh _ _ => fresh.kept)
    fun w q fresh serves => ?_
  · exact ⟨fresh.conserved.congr rfl rfl rfl, fresh.upToDate.marks same enters⟩
  · exact commit_fresh fresh (serves.changesAll fresh.conserved)
      (commit_serves_conserves fresh.conserved serves)

/-- A repair of a route is followed by its refresh. -/
theorem Plan.UpToDate.repairRoute {plan after : Plan α} (orderly : Orderly jobs bases plan)
    (upToDate : plan.UpToDate p) (done : plan.repairRoute p r = .ok after) : after.UpToDate p := by
  simp only [Plan.repairRoute, bind_eq_ok] at done
  rcases done with ⟨⟨count, cleared⟩, tidied, refreshed⟩
  exact upToDate.refreshed
    (.clearIdleBases (fun _ _ visits member => orderly.alone visits member) tidied) refreshed

theorem placeRoute_fresh (fresh : w.Fresh p jobs bases) :
    Ends (Work.placeRoute p settings r) (fun _ next => next.Fresh p jobs bases)
      (LeavesKept p jobs bases) w := by
  refine Work.placeRoute_ends (fun e failed => leavesKept_of_fault
    ((NeverRefuses.repairRoute p w.plan r).isFault failed) w) fun plan stops repaired found => ?_
  refine (Work.placeBases_ends (fun _ _ _ w => w.Fresh p jobs bases) (E := LeavesKept p jobs bases)
    (fun _ _ _ _ _ kept => kept) (fun placed trip b rest w next location duration kept places => ?_)
    (fun placed trip b rest w next kept drops => ?_) (fun _ _ _ _ _ _ kept _ _ _ _ => kept.kept)
    (fun _ _ _ _ _ plan _ _ _ _ _ _ _ failed => ?_) ⟨repairRoute_conserves fresh.conserved repaired,
      fresh.upToDate.repairRoute fresh.conserved.orderly repaired⟩
    (Work.visiting_start found)).mono (fun _ _ => ?_) fun _ _ left => left
  · refine ⟨places.conserves kept.conserved, ?_⟩
    obtain ⟨_, _, refreshed⟩ := places.plan_eq
    exact kept.upToDate.changed (places.changesAt kept.conserved)
      (current_of_refreshRoute refreshed (.inl rfl))
  · refine ⟨drops.conserves kept.conserved, ?_⟩
    obtain ⟨_, _, _, _, _, refreshed⟩ := drops.plan_eq
    exact kept.upToDate.changed (drops.changesAt kept.conserved)
      (current_of_refreshRoute refreshed (.inl rfl))
  · exact leavesKept_of_fault ((NeverRefuses.refreshRoute p plan r).isFault failed) _
  · rintro ⟨_, _, kept, _⟩
    exact kept

/-- The placement of all bases refreshes every route that it changes.  Where it is refused, no change
is without a refresh. -/
theorem placeAll_fresh (fresh : w.Fresh p jobs bases) :
    Ends (Work.placeAll p settings) (fun _ next => next.Fresh p jobs bases)
      (LeavesKept p jobs bases) w := by
  simp only [Work.placeAll, ends_bind, ends_modify, ends_get]
  exact Work.placeRoutes_ends (fun _ w => w.Fresh p jobs bases)
    (fun _ _ _ _ _ kept => placeRoute_fresh kept) ⟨fresh.conserved, fresh.upToDate⟩

/-- A pass brings an orderly plan up to date.  Where it is refused, nothing is out of date either. -/
theorem insertJobs_fresh {given : List Nat} (orderly : Orderly jobs bases f.work.plan) :
    Ends (Fill.insertJobs p settings given) (fun _ g => g.work.Fresh p jobs bases)
      (fun e g => LeavesKept p jobs bases e g.work) f :=
  Fill.insertJobs_ends (Work.Fresh p jobs bases) (E := LeavesKept p jobs bases)
    (fun _ => insertions_fresh _ orderly) fun _ fresh => placeAll_fresh fresh

theorem insertBase_fresh (kept : f.work.plan.Kept p jobs bases) :
    Ends (Fill.insertBase p settings r) (fun _ g => g.work.Fresh p jobs bases)
      (fun e g => LeavesKept p jobs bases e g.work) f := by
  refine Fill.insertBase_ends (J := Work.Fresh p jobs bases) (E := LeavesKept p jobs bases)
    (fun _ _ _ _ => kept) (fun pooled _ pool _ _ _ => (kept.refreshBases f.work.volumes pool).kept)
    (fun pooled fresh pool refreshed => ?_) (fun _ _ fresh _ _ => fresh.kept)
    fun w q route b job location duration before after load fresh lowest found own splits => ?_
  · have now (volumes : Volumes α) : Work.Fresh p jobs bases ⟨fresh, volumes⟩ :=
      ⟨Holding.refreshRoute (kept.orderly.refreshBases pool) refreshed,
        (kept.upToDate.refreshBases pool).refreshed (.refl r pooled) refreshed⟩
    exact ends_of_forall (fun _ volumes => now volumes) fun _ volumes _ _ => (now volumes).kept
  · have found : w.plan.routes[q.route]? = some route := own ▸ found
    apply commit_fresh fresh (splits.changesAll fresh.conserved lowest found)
    apply Work.commit_keeps (Conserved jobs bases) fresh.conserved fun _ _ => Holding.refreshRoute
    rw [splits.changes_eq]
    exact conserves_insertBase fresh.conserved

/-! ### Removals -/

omit [Quantity α] in
/-- A removal of jobs leaves the routes as they were that served none of them. -/
theorem removeJobs_sameRoute {plan after : Plan α} {given : List Nat} {removed : List (Nat × Nat)}
    (done : plan.removeJobs given = .ok (removed, after)) :
    after.routes.length = plan.routes.length ∧
      ∀ i, removed.any (·.2 = i) = false → SameRoute i plan after := by
  induction given generalizing plan removed with
  | nil =>
      cases done
      exact ⟨rfl, fun i _ => .refl i after⟩
  | cons job given inductionHypothesis =>
      simp only [Plan.removeJobs, bind_eq_ok] at done
      rcases done with ⟨⟨from?, shorter⟩, first, ⟨others, last⟩, rest, equal⟩
      rcases removeJob_changes first with ⟨rfl, rfl, _⟩ | ⟨r, _, _, rfl, _, _, _, _, changes⟩
      · cases equal
        exact inductionHypothesis rest
      · cases equal
        obtain ⟨size, same⟩ := inductionHypothesis rest
        refine ⟨size.trans changes.size_eq, fun i absent => ?_⟩
        simp only [List.any_cons, Bool.or_eq_false_iff, decide_eq_false_iff_not] at absent
        exact (changes.sameRoute absent.1).trans (same i absent.2)

/-- A removal refreshes the routes that lose a job. -/
theorem ruin_fresh {plan after : Plan α} {given removed : List Nat}
    (kept : plan.Kept p jobs bases) (done : plan.ruin p given = .ok (removed, after)) :
    after.Kept p jobs bases := by
  obtain ⟨orderly, upToDate⟩ := kept
  simp only [ruin, bind_eq_ok] at done
  rcases done with ⟨⟨found, shorter⟩, taken, last, repaired, equal⟩
  cases equal
  obtain ⟨size, same⟩ := removeJobs_sameRoute taken
  -- What is not up to date any more is among the routes that are still to be repaired.
  suffices along : ∀ (routes : List Nat) (plan : Plan α), Orderly jobs bases plan →
      (∀ i < plan.routes.length, i ∈ routes ∨ ∃ route, plan.Current p i route) →
      routes.foldlM (repairRoute p) plan = .ok after → after.Kept p jobs bases by
    refine along _ shorter (orderly.removeJobs taken) (fun i inside => ?_) repaired
    by_cases touched : found.any (·.2 = i) = true
    · exact .inl (List.mem_filter.mpr ⟨List.mem_range.mpr inside, touched⟩)
    · obtain ⟨route, current⟩ := upToDate i (size ▸ inside)
      exact .inr ⟨route, current.congr (same i (Bool.eq_false_iff.mpr touched))⟩
  intro routes
  induction routes with
  | nil =>
      intro plan orderly current done
      cases done
      exact ⟨orderly, fun i inside => (current i inside).resolve_left List.not_mem_nil⟩
  | cons r routes inductionHypothesis =>
      intro plan orderly current done
      rw [List.foldlM_cons, bind_eq_ok] at done
      rcases done with ⟨middle, head, tail⟩
      obtain ⟨kept, changes⟩ := orderly.repairRoute head
      refine inductionHypothesis middle kept (fun i inside => ?_) tail
      by_cases own : r = i
      · simp only [repairRoute, bind_eq_ok] at head
        rcases head with ⟨_, _, refreshed⟩
        exact .inr (current_of_refreshRoute refreshed (.inl own.symm))
      · rcases current i (changes.size_eq ▸ inside) with member | ⟨route, before⟩
        · exact .inl ((List.mem_cons.mp member).resolve_left (Ne.symm own))
        · exact .inr ⟨route, before.congr (changes.sameRoute own)⟩

/-! ### What a pass begins with -/

/-- A base that trips are derived from is one of the pool. -/
theorem base_of_tripsFrom {pool : BasePool} {load : Load α} {served : Bool} {stops : List Stop}
    {trips : List (TripEntry α) × List (Load α)} {b : Nat}
    (done : tripsFrom p pool load served stops = .ok trips) (member : .base b ∈ stops) :
    ∃ lies, pool.base b = .ok lies := by
  induction stops generalizing load served trips with
  | nil => cases member
  | cons stop rest inductionHypothesis =>
      cases stop with
      | destination job =>
          simp only [tripsFrom, bind_eq_ok] at done
          rcases done with ⟨_, _, later, tail, _⟩
          exact inductionHypothesis tail (by simpa using member)
      | base c =>
          simp only [tripsFrom, bind_eq_ok] at done
          rcases done with ⟨lies, found, later, tail, _⟩
          rcases List.mem_cons.mp member with same | among
          · cases same
            exact ⟨lies, found⟩
          · exact inductionHypothesis tail among

theorem Plan.UpToDate.refreshBases_answers {plan : Plan α} (upToDate : plan.UpToDate p) :
    ∃ pooled, plan.refreshBases = .ok pooled := by
  refine Plan.refreshBases_answers fun b visited => ?_
  rw [← mem_routed, List.map_map] at visited
  obtain ⟨_, among, member⟩ := List.mem_flatten.mp visited
  obtain ⟨route, here, rfl⟩ := List.mem_map.mp among
  obtain ⟨i, found⟩ := List.mem_iff_getElem?.mp here
  obtain ⟨now, current⟩ := upToDate i (List.getElem?_eq_some_iff.mp found).1
  cases found.symm.trans current.found
  obtain ⟨entry, derived, _⟩ := current.derived
  simp only [RouteEntry.derive, bind_eq_ok] at derived
  rcases derived with ⟨_, _, trips, done, _⟩
  obtain ⟨stop, visits, base⟩ := List.mem_filterMap.mp member
  cases stop with
  | destination job => cases base
  | base c =>
      cases base
      obtain ⟨lies, known⟩ := base_of_tripsFrom done visits
      simp only [BasePool.base, orOutOfTable_eq_ok, Option.map_eq_some_iff] at known
      rcases known with ⟨e, there, _⟩
      exact (List.getElem?_eq_some_iff.mp there).1

/-- A refresh of a route reads of the pool only the bases of that route. -/
theorem refreshRoute_withPool {plan next : Plan α} {pool : BasePool}
    (same : ∀ stops b, plan.Visits r stops → .base b ∈ stops → pool.base b = plan.pool.base b)
    (done : plan.refreshRoute p r = .ok next) :
    Plan.refreshRoute p { plan with pool := pool } r = .ok { next with pool := pool } := by
  simp only [Plan.refreshRoute, Ledger.refresh, bind_eq_ok, route_eq_ok] at done ⊢
  rcases done with ⟨route, found, fresh, times, _, ⟨entry, derived, entered⟩, equal⟩
  cases entered
  cases equal
  have bases : ∀ b, .base b ∈ route.stops → pool.base b = plan.pool.base b := fun b =>
    same route.stops b (visits_of_route found)
  have stops := (Route.reschedule_eq_ok times).2
  refine ⟨route, found, fresh, ?_, _, ⟨entry, ?_, rfl⟩, rfl⟩
  · rw [Route.reschedule_congr bases]
    exact times
  · have basesNow : ∀ b, .base b ∈ fresh.stops → pool.base b = plan.pool.base b := stops ▸ bases
    rw [RouteEntry.derive_congr basesNow]
    exact derived

/-- It does not matter whether pool or routes are refreshed first. -/
theorem refreshBases_of_refreshRoutes {plan next : Plan α}
    (done : plan.refreshRoutes p = .ok next) :
    ∃ pooled fresh, plan.refreshBases = .ok pooled ∧ pooled.refreshRoutes p = .ok fresh ∧
      next.refreshBases = .ok fresh ∧ fresh.refreshRoutes p = .ok fresh := by
  have upToDate : next.UpToDate p := upToDate_of_refreshRoutes done
  obtain ⟨fresh, again⟩ := upToDate.refreshBases_answers
  have last : fresh.refreshRoutes p = .ok fresh :=
    refreshRoutes_eq_self.mpr (upToDate.refreshBases again)
  obtain ⟨kept, untouched, _⟩ := refreshRoutes_keeps done
  simp only [Plan.refreshBases, bind_eq_ok] at again
  rcases again with ⟨pool, refreshed, equal⟩
  cases equal
  have routes : next.routes.map (·.stops) = plan.routes.map (·.stops) := by
    have stops := congrArg (List.map Prod.snd) kept
    simpa [itineraries, Function.comp_def] using stops
  have pooled : plan.refreshBases = .ok { plan with pool := pool } := by
    simp only [Plan.refreshBases, bind_eq_ok]
    exact ⟨pool, by rw [← untouched, ← routes, refreshed], rfl⟩
  refine ⟨_, _, pooled, ?_, ?_, last⟩
  · suffices along : ∀ (routes : List Nat) (before : Plan α),
        before.itineraries = plan.itineraries → before.pool = plan.pool →
        routes.foldlM (Plan.refreshRoute p) before = .ok next →
        routes.foldlM (Plan.refreshRoute p) { before with pool := pool } =
          .ok { next with pool := pool } from along plan.routeIds plan rfl rfl done
    intro routes
    induction routes with
    | nil =>
        intro before _ _ done
        cases done
        rfl
    | cons r routes inductionHypothesis =>
        intro before itineraries same done
        rw [List.foldlM_cons, bind_eq_ok] at done ⊢
        rcases done with ⟨middle, head, tail⟩
        obtain ⟨stays, untouched, _⟩ := refreshRoute_keeps head
        refine ⟨_, refreshRoute_withPool (fun stops b visits member => ?_) head,
          inductionHypothesis middle (stays.trans itineraries) (untouched.trans same) tail⟩
        rw [same]
        have visits : plan.Visits r stops := by rwa [Visits, ← itineraries]
        exact (sameRoute_refreshBases pooled).bases stops b visits member
  · simp only [Plan.refreshBases, bind_eq_ok]
    exact ⟨pool, refreshed, rfl⟩

omit [Quantity α] in
theorem bind_congr_left {σ β γ : Type} {g : Attempt σ β} {k : β → Attempt σ γ} {s t : σ}
    (same : g s = g t) : (g >>= k) s = (g >>= k) t := by
  show EStateM.bind g k s = EStateM.bind g k t
  rw [EStateM.bind, EStateM.bind, same]

/-- A pass that begins with a refresh of all routes goes on as if they had been refreshed before. -/
theorem insertJobs_of_refreshRoutes {plan next : Plan α} {given : List Nat}
    (done : plan.refreshRoutes p = .ok next) :
    Fill.insertJobs p settings given (.start p next) =
      Fill.insertJobs p settings given (.start p plan) := by
  obtain ⟨pooled, fresh, bases, routes, basesNow, routesNow⟩ := refreshBases_of_refreshRoutes done
  have prepares : Fill.prepare p (.start p next) = Fill.prepare p (.start p plan) := by
    simp only [Fill.prepare, Fill.updatePlan, Fill.start, bind_assoc, get_bind]
    rw [ofResult_bind_of_ok basesNow, ofResult_bind_of_ok bases, set_bind, set_bind, get_bind,
      get_bind, ofResult_bind_of_ok routesNow, ofResult_bind_of_ok routes, set_bind, set_bind]
  exact bind_congr_left prepares

end

/-! ### Histories -/

/-- Passes, insertions of bases, removals, and refreshes.  All of them refresh what they change. -/
def Operation.Refreshes : Operation α → Prop
  | .insertJobs _ _ | .recreate _ | .insertBase _ _ | .ruin _ => True
  | .refreshBases | .refreshRoute _ => True
  | .placeAll _ _ | .removeJob _ | .clearIdleBases _ | .resetRoute _ => False

theorem Operation.keepsFresh {p : Problem α} {operation : Operation α} {jobs bases : Nat}
    {plan : Plan α} (refreshes : operation.Refreshes) (kept : plan.Kept p jobs bases) :
    Ends (operation.perform p) (fun _ after => after.Kept p jobs bases)
      (fun e after => ∀ reason, e = .refused reason → after.Kept p jobs bases) plan := by
  cases operation with
  | insertJobs settings given =>
      apply ends_onPlan.mpr
      exact (insertJobs_fresh kept.orderly).mono (fun _ _ fresh => fresh.kept) fun _ _ left => left
  | recreate settings =>
      apply ends_onPlan.mpr
      refine (Fill.recreate_ends (Q := Work.Fresh p jobs bases) (E := LeavesKept p jobs bases)
        (fun _ _ _ => kept) fun given => ?_).mono (fun _ _ fresh => fresh.kept) fun _ _ left => left
      exact insertJobs_fresh kept.orderly
  | insertBase settings r =>
      apply ends_onPlan.mpr
      exact (insertBase_fresh kept).mono (fun _ _ fresh => fresh.kept) fun _ _ left => left
  | ruin given =>
      simp only [perform, ends_edit, bind_eq_ok]
      refine ⟨fun after done => ?_, fun _ _ _ _ => kept⟩
      rcases done with ⟨⟨removed, last⟩, ruined, equal⟩
      cases equal
      exact ruin_fresh kept ruined
  | refreshBases =>
      simp only [perform, ends_edit]
      exact ⟨fun after done => (kept.refreshBases (.ofSites p.sites) done).kept,
        fun _ _ _ _ => kept⟩
  | refreshRoute r =>
      simp only [perform, ends_edit]
      refine ⟨fun after done => ?_, fun _ _ _ _ => kept⟩
      obtain ⟨itineraries, pool, unassigned⟩ := refreshRoute_keeps done
      exact ⟨kept.orderly.congr itineraries (congrArg _ pool) unassigned,
        kept.upToDate.refreshed (.refl r plan) done⟩
  | placeAll settings volumes => exact refreshes.elim
  | removeJob job => exact refreshes.elim
  | clearIdleBases r => exact refreshes.elim
  | resetRoute r => exact refreshes.elim

/-- Over a whole history of passes, insertions of bases and removals, whether they are answered or
refused, a refresh of all routes changes nothing, as long as it changed nothing at the beginning.  A
pass gives the same result and leaves the same plan whether all routes are refreshed before it or
not. -/
theorem session_staysFresh (p : Problem α) {jobs bases : Nat} {plan : Plan α}
    {operations : List (Operation α)} (orderly : Orderly jobs bases plan)
    (fresh : plan.refreshRoutes p = .ok plan)
    (refreshes : ∀ operation ∈ operations, operation.Refreshes) :
    Ends (session p operations) (fun _ after => after.refreshRoutes p = .ok after)
        (fun e _ => ∃ f, e = .fault f) plan ∧
      ∀ (settings : Settings α) (given : List Nat) (other next : Plan α),
        other.refreshRoutes p = .ok next →
        Fill.insertJobs p settings given (.start p next) =
          Fill.insertJobs p settings given (.start p other) := by
  refine ⟨?_, fun settings given other next => insertJobs_of_refreshRoutes⟩
  have kept : plan.Kept p jobs bases := ⟨orderly, refreshRoutes_eq_self.mp fresh⟩
  refine (session_ends (Plan.Kept p jobs bases) (E := fun e _ => ∃ f, e = .fault f)
    (fun operation member before holds => ?_) kept).mono (fun _ after holds => ?_)
    fun _ _ fault => fault
  · refine (operation.keepsFresh (refreshes operation member) holds).mono (fun _ _ now => now)
      fun e _ left => ⟨left, fun f fault => ⟨f, fault⟩⟩
  · exact refreshRoutes_eq_self.mpr holds.upToDate

/-- A pass, the removal of the first job and one more base, which finds no place.  The plan before them
was refreshed, so the plan behind them needs no refresh. -/
theorem session_staysFresh_twoJobs :
    let settings := Settings.forProblem twoJobs .standard
    let operations : List (Operation Rat) :=
      [.recreate settings, .ruin [0], .insertBase settings 0]
    (∀ operation ∈ operations, operation.Refreshes) ∧
      ∃ empty plan after, Plan.empty twoJobs = .ok empty ∧
        empty.refreshRoutes twoJobs = .ok plan ∧ Orderly 2 2 plan ∧
        plan.refreshRoutes twoJobs = .ok plan ∧ session twoJobs operations plan = .ok () after ∧
        after.itineraries = [(0, [.destination 1, .base 1])] ∧
        after.refreshRoutes twoJobs = .ok after ∧
        Fill.insertJobs twoJobs settings [1, 0] (.start twoJobs plan) =
          Fill.insertJobs twoJobs settings [1, 0] (.start twoJobs empty) := by
  intro settings operations
  have refreshes : ∀ operation ∈ operations, operation.Refreshes := by
    simp [operations, Operation.Refreshes]
  have run : (Plan.empty twoJobs >>= fun empty => empty.refreshRoutes twoJobs >>= fun plan =>
      answer ((do
        session twoJobs operations
        return (← get).itineraries) plan)) = .ok [(0, [.destination 1, .base 1])] := by
    decide +kernel
  simp only [bind_eq_ok, answer_eq_ok] at run
  obtain ⟨empty, begins, plan, refreshed, _, both⟩ := run
  obtain ⟨_, after, done, answers⟩ := bind_answers.mp both
  obtain ⟨itineraries, rfl⟩ : after.itineraries = _ ∧ after = _ := by
    simpa [pure, EStateM.pure] using answers
  have orderly : Orderly 2 2 plan :=
    (Holding.refreshRoutes (withPool_conserves begins) refreshed).orderly
  have fresh : plan.refreshRoutes twoJobs = .ok plan :=
    refreshRoutes_eq_self.mpr (upToDate_of_refreshRoutes refreshed)
  obtain ⟨stays, same⟩ := session_staysFresh twoJobs orderly fresh refreshes
  rw [Ends, done] at stays
  exact ⟨refreshes, empty, plan, after, begins, refreshed, orderly, fresh, done, itineraries, stays,
    same settings [1, 0] empty plan refreshed⟩

end Haulage

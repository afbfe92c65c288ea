/-
Module: Haulage.Proofs.ConservedSessions
Purpose: No stop is lost or duplicated over a whole history, however its operations end.
Main exports: Plan.Partitioned, Operation.conserves, session_partitions
-/
import Haulage.Proofs.Changes
import Haulage.Proofs.Turn
import Haulage.Proofs.Visit

namespace Haulage

variable {α : Type} [Quantity α]

open Attempt Plan

variable {jobs bases : Nat}

/-! ### Turns -/

section

variable {plan : Plan α}

omit [Quantity α]

theorem conserves_insert {r position : Nat} {stop : Stop} {rest : List Change}
    {Q : Unit → Plan α → Prop} (holds : Conserved jobs bases plan)
    (later : ∀ next, Conserved jobs bases next →
      (∀ b, stop = .base b → next.pool.isFree b = false) →
      Ends (makeChanges rest) Q (fun _ => Conserved jobs bases) next) :
    Ends (makeChanges (.insert r position stop :: rest)) Q (fun _ => Conserved jobs bases)
      plan := by
  refine (ends_makeChanges_cons _ _).mpr ⟨fun next inserted => ?_, fun _ _ => holds⟩
  apply later next (Holding.insertStop holds inserted)
  rintro b rfl
  obtain ⟨route, _, _, _, rfl⟩ := insertStop_base.mp inserted
  simp [BasePool.isFree_without]

/-- A base that was just put into a route may be put at a location. -/
theorem conserves_insertBase {r position b location : Nat} {duration : Duration}
    (holds : Conserved jobs bases plan) :
    Ends (makeChanges [.insert r position (.base b), .place b location duration])
      (fun _ => Conserved jobs bases) (fun _ => Conserved jobs bases) plan := by
  apply conserves_insert holds
  intro next kept taken
  refine (ends_makeChanges_cons _ _).mpr ⟨fun after placed => ?_, fun _ _ => kept⟩
  exact Holding.placeBase kept (taken b rfl) placed

/-- Putting a free base into a route, and then at a location, does not fail. -/
theorem ends_insertBase {r b location : Nat} {duration : Duration} {front after : List Stop}
    {Q : Unit → Plan α → Prop} {E : Failure → Plan α → Prop}
    (visits : plan.Visits r (front ++ after)) (free : plan.pool.isFree b = true)
    (puts : ∀ next closed, plan.insertStop r front.length (.base b) = .ok next →
      next.placeBase b location duration = .ok closed → Q () closed) :
    Ends (makeChanges [.insert r front.length (.base b), .place b location duration]) Q E plan := by
  obtain ⟨next, inserted⟩ := insertStop_base_answers visits free
  obtain ⟨closed, put⟩ := placeBase_answers location duration inserted
  exact ends_makeChanges_insert inserted
    (ends_makeChanges_place put (puts next closed inserted put))

/-- The base closes the stops before it. -/
theorem ends_closing {r b location : Nat} {duration : Duration} {front after : List Stop}
    {Q : Unit → Plan α → Prop} {E : Failure → Plan α → Prop} (conserved : Conserved jobs bases plan)
    (visits : plan.Visits r (front ++ after)) (free : plan.pool.isFree b = true)
    (closes : ∀ closed, Closes jobs bases r b location front after plan closed → Q () closed) :
    Ends (makeChanges [.insert r front.length (.base b), .place b location duration]) Q E plan := by
  apply ends_insertBase visits free
  intro next closed inserted put
  exact closes closed (closes_of_insertStop conserved visits inserted put)

/-- A job is put at the end of a route, and a base that closes it behind. -/
theorem ends_opening {r job b location : Nat} {duration : Duration} {stops : List Stop}
    {Q : Unit → Plan α → Prop} {E : Failure → Plan α → Prop} (conserved : Conserved jobs bases plan)
    (visits : plan.Visits r stops) (free : plan.pool.isFree b = true) (fails : ∀ e, E e plan)
    (opens : ∀ closed,
      Closes jobs bases r b location (stops ++ [.destination job]) [] plan closed → Q () closed) :
    Ends (makeChanges [.insert r stops.length (.destination job),
      .insert r (stops.length + 1) (.base b), .place b location duration]) Q E plan := by
  refine (ends_makeChanges_cons _ _).mpr ⟨fun next inserted => ?_, fun e _ => fails e⟩
  have inserted : plan.insertStop r stops.length (.destination job) = .ok next := inserted
  rw [← List.append_nil stops] at visits
  have visitsNow : next.Visits r (stops ++ [.destination job] ++ []) := by
    simpa using visits.insertStop inserted
  have pool : next.pool = plan.pool := by
    obtain ⟨_, _, _, _, rfl⟩ := insertStop_destination.mp inserted
    rfl
  have position : stops.length + 1 = (stops ++ [Stop.destination job]).length := by simp
  rw [position]
  refine ends_closing (Holding.insertStop conserved inserted) visitsNow (pool ▸ free)
    fun closed closes => opens closed ⟨?_, closes.conserved, closes.visits, closes.placed, ?_⟩
  · exact (ChangesAt.insertStop inserted).trans closes.changes
  · exact pool ▸ closes.kept

end

theorem Serves.conserves {p : Problem α} {plan : Plan α} {volumes : Volumes α}
    {provider : LocationProvider α} {job : Nat} {q : Proposal} (holds : Conserved jobs bases plan)
    (serves : Serves p plan volumes provider job q) :
    Ends (makeChanges q.changes) (fun _ => Conserved jobs bases) (fun _ => Conserved jobs bases)
      plan := by
  rcases serves with ⟨route, v, d, _, _, _, _, offer⟩
  rcases offer with ⟨before, after, joins⟩ | ⟨b, location, duration, opens⟩
  · rw [joins.changes_eq]
    exact conserves_insert holds fun next kept _ => kept
  · rw [opens.changes_eq]
    exact conserves_insert holds fun next kept _ => conserves_insertBase kept

theorem commit_serves_conserves {p : Problem α} {provider : LocationProvider α} {job : Nat}
    {q : Proposal} {w : Work α} (holds : Conserved jobs bases w.plan)
    (serves : Serves p w.plan w.volumes provider job q) :
    Ends (Fill.commit p q) (fun _ next => Conserved jobs bases next.plan)
      (fun _ next => Conserved jobs bases next.plan) w :=
  Work.commit_keeps (Conserved jobs bases) holds (fun _ _ => Holding.refreshRoute)
    (serves.conserves holds)

theorem prepare_conserves {p : Problem α} {f : Fill α} (holds : Conserved jobs bases f.work.plan) :
    Ends (Fill.prepare p) (fun _ g => Conserved jobs bases g.work.plan)
      (fun _ g => Conserved jobs bases g.work.plan) f := by
  refine Fill.prepare_ends (J := fun w => Conserved jobs bases w.plan)
    (E := fun _ w => Conserved jobs bases w.plan) (fun _ _ => holds)
    (fun pooled e pool _ => Holding.refreshBases holds pool) fun pooled fresh pool refreshed => ?_
  have kept := Holding.refreshRoutes (Holding.refreshBases holds pool) refreshed
  exact ends_of_forall (fun _ _ => kept) fun _ _ => kept

/-! ### Placement -/

theorem repairRoute_conserves {p : Problem α} {r : Nat} {plan after : Plan α}
    (holds : Conserved jobs bases plan) (done : plan.repairRoute p r = .ok after) :
    Conserved jobs bases after := by
  simp only [repairRoute, bind_eq_ok] at done
  rcases done with ⟨⟨count, cleared⟩, tidied, refreshed⟩
  exact Holding.refreshRoute (Holding.clearIdleBases holds tidied) refreshed

theorem Places.conserves {p : Problem α} {settings : Settings α} {r b location : Nat}
    {placed rest : List Stop} {trip : List Nat} {duration : Duration} {w next : Work α}
    (places : Places p settings r placed trip b rest location duration w next)
    (holds : Conserved jobs bases w.plan) : Conserved jobs bases next.plan := by
  rcases places.plan_eq with ⟨plan, put, refreshed⟩
  have taken := Holding.taken_of_visits holds places.visits (b := b) (by simp)
  exact Holding.refreshRoute (Holding.placeBase holds taken put) refreshed

theorem Drops.conserves {p : Problem α} {r b : Nat} {placed rest : List Stop} {trip : List Nat}
    {w next : Work α} (drops : Drops p r placed trip b rest w next)
    (holds : Conserved jobs bases w.plan) : Conserved jobs bases next.plan := by
  rcases drops.plan_eq with ⟨route, plan, found, whole, handed, refreshed⟩
  have taken := Holding.setRoute { route with stops := placed ++ rest }
    (.base b :: (trip.map Stop.destination).reverse) holds found (by
      rw [whole, List.perm_iff_count]
      intro stop
      simp only [List.cons_append, List.count_cons, List.count_append, List.count_reverse]
      omega)
  exact Holding.refreshRoute (Holding.handBackAll taken handed) refreshed

theorem placeRoute_conserves {p : Problem α} {settings : Settings α} {r : Nat} {w : Work α}
    (holds : Conserved jobs bases w.plan) :
    Ends (Work.placeRoute p settings r) (fun _ next => Conserved jobs bases next.plan)
      (fun _ next => Conserved jobs bases next.plan) w := by
  refine Work.placeRoute_ends (fun _ _ => holds) fun plan stops repaired found => ?_
  refine (Work.placeBases_ends (fun _ _ _ w => Conserved jobs bases w.plan)
    (E := fun _ w => Conserved jobs bases w.plan) (fun _ _ _ _ _ kept => kept)
    (fun _ _ _ _ _ _ _ _ kept places => places.conserves kept)
    (fun _ _ _ _ _ _ kept drops => drops.conserves kept) (fun _ _ _ _ _ _ kept _ _ => kept)
    (fun _ _ b _ _ _ _ _ _ kept visits _ put _ => ?_) (repairRoute_conserves holds repaired)
    (Work.visiting_start found)).mono (fun _ _ => ?_) fun _ _ failed => failed
  · exact Holding.placeBase kept (Holding.taken_of_visits kept visits (b := b) (by simp)) put
  · rintro ⟨_, _, kept, _⟩
    exact kept

theorem placeAll_conserves {p : Problem α} {settings : Settings α} {w : Work α}
    (holds : Conserved jobs bases w.plan) :
    Ends (Work.placeAll p settings) (fun _ next => Conserved jobs bases next.plan)
      (fun _ next => Conserved jobs bases next.plan) w := by
  simp only [Work.placeAll, ends_bind, ends_modify, ends_get]
  exact Work.placeRoutes_ends (fun _ w => Conserved jobs bases w.plan)
    (fun _ _ _ _ _ kept => placeRoute_conserves kept) holds

/-! ### Operations -/

omit [Quantity α] in
theorem removeJobs_conserves {plan after : Plan α} {removed : List (Nat × Nat)}
    {given : List Nat} (holds : Conserved jobs bases plan)
    (done : plan.removeJobs given = .ok (removed, after)) : Conserved jobs bases after :=
  removeJobs_keeps (Conserved jobs bases) (fun _ _ _ _ kept => Holding.removeJob kept) holds done

theorem ruin_conserves {p : Problem α} {plan after : Plan α} {removed given : List Nat}
    (holds : Conserved jobs bases plan) (done : plan.ruin p given = .ok (removed, after)) :
    Conserved jobs bases after := by
  simp only [ruin, bind_eq_ok] at done
  rcases done with ⟨⟨found, shorter⟩, taken, last, repaired, equal⟩
  cases equal
  exact foldlM_keeps (Conserved jobs bases) (fun _ _ _ _ => repairRoute_conserves)
    (removeJobs_conserves holds taken) repaired

theorem insertJobs_conserves {p : Problem α} {settings : Settings α} {given : List Nat}
    {f : Fill α} (holds : Conserved jobs bases f.work.plan) :
    Ends (Fill.insertJobs p settings given) (fun _ g => Conserved jobs bases g.work.plan)
      (fun _ g => Conserved jobs bases g.work.plan) f := by
  refine Fill.insertJobs_ends (fun w => Conserved jobs bases w.plan)
    (E := fun _ w => Conserved jobs bases w.plan) (fun given => ?_)
    fun w kept => placeAll_conserves kept
  refine Fill.insertions_ends (fun w => Conserved jobs bases w.plan)
    (E := fun _ w => Conserved jobs bases w.plan) (prepare_conserves holds) fun job g kept => ?_
  exact Fill.insertJob_ends (fun w => Conserved jobs bases w.plan) kept
    (fun _ _ kept _ _ => kept.congr rfl rfl rfl) (fun _ _ kept => kept)
    fun _ _ kept serves => commit_serves_conserves kept serves

theorem insertBase_conserves {p : Problem α} {settings : Settings α} {r : Nat}
    {f : Fill α} (holds : Conserved jobs bases f.work.plan) :
    Ends (Fill.insertBase p settings r) (fun _ g => Conserved jobs bases g.work.plan)
      (fun _ g => Conserved jobs bases g.work.plan) f := by
  refine Fill.insertBase_ends (J := fun w => Conserved jobs bases w.plan)
    (E := fun _ w => Conserved jobs bases w.plan) (fun _ _ => holds)
    (fun pooled e pool _ => Holding.refreshBases holds pool)
    (fun pooled fresh pool refreshed => ?_) (fun _ _ kept => kept)
    fun w q route b job location duration before after load kept _ _ _ splits => ?_
  · have kept := Holding.refreshRoute (Holding.refreshBases holds pool) refreshed
    exact ends_of_forall (fun _ _ => kept) fun _ _ => kept
  · apply Work.commit_keeps (Conserved jobs bases) kept fun _ _ => Holding.refreshRoute
    rw [splits.changes_eq]
    exact conserves_insertBase kept

/-- Every operation keeps all stops, however it ends. -/
theorem Operation.conserves (p : Problem α) (operation : Operation α) {plan : Plan α}
    (holds : Conserved jobs bases plan) :
    Ends (operation.perform p) (fun _ => Conserved jobs bases) (fun _ => Conserved jobs bases)
      plan := by
  cases operation with
  | insertJobs settings given =>
      exact ends_onPlan.mpr (insertJobs_conserves holds)
  | recreate settings =>
      refine ends_onPlan.mpr (Fill.recreate_ends (Q := fun w => Conserved jobs bases w.plan)
        (E := fun _ w => Conserved jobs bases w.plan) (fun _ => holds) fun given => ?_)
      exact insertJobs_conserves holds
  | insertBase settings r => exact ends_onPlan.mpr (insertBase_conserves holds)
  | placeAll settings volumes =>
      simp only [perform, ends_within, ends_map]
      exact placeAll_conserves holds
  | ruin given =>
      simp only [perform, ends_edit, bind_eq_ok]
      refine ⟨fun after done => ?_, fun _ _ => holds⟩
      rcases done with ⟨⟨removed, last⟩, ruined, equal⟩
      cases equal
      exact ruin_conserves holds ruined
  | removeJob job =>
      simp only [perform, ends_edit, bind_eq_ok]
      refine ⟨fun after done => ?_, fun _ _ => holds⟩
      rcases done with ⟨⟨from?, last⟩, removed, equal⟩
      cases equal
      exact Holding.removeJob holds removed
  | clearIdleBases r =>
      simp only [perform, ends_edit, bind_eq_ok]
      refine ⟨fun after done => ?_, fun _ _ => holds⟩
      rcases done with ⟨⟨count, last⟩, cleared, equal⟩
      cases equal
      exact Holding.clearIdleBases holds cleared
  | resetRoute r =>
      simp only [perform, ends_edit]
      exact ⟨fun _ => Holding.resetRoute holds, fun _ _ => holds⟩
  | refreshBases =>
      simp only [perform, ends_edit]
      exact ⟨fun _ => Holding.refreshBases holds, fun _ _ => holds⟩
  | refreshRoute r =>
      simp only [perform, ends_edit]
      exact ⟨fun _ => Holding.refreshRoute holds, fun _ _ => holds⟩

/-! ### Histories -/

namespace Plan

/-- Every destination is unassigned or served once, and every base is free or visited once.  What is
free has no location and takes no time. -/
structure Partitioned (jobs bases : Nat) (plan : Plan α) : Prop where
  jobs_split : ∀ job < jobs,
    (job ∈ plan.unassigned ∧ plan.Nowhere (.destination job)) ∨
      (job ∉ plan.unassigned ∧ plan.OnlyOnce (.destination job))
  bases_split : ∀ b < bases,
    (plan.pool.isFree b = true ∧ plan.Nowhere (.base b)) ∨
      (plan.pool.isFree b = false ∧ plan.OnlyOnce (.base b))
  size_eq : plan.pool.size = bases
  cleared : ∀ b base, plan.pool.isFree b = true → plan.pool.base b = .ok base →
    base.location = none ∧ base.duration = .zero

variable {plan : Plan α}

omit [Quantity α] in
theorem Holding.partitioned (holds : Conserved jobs bases plan) : Partitioned jobs bases plan := by
  refine ⟨fun job inside => ?_, fun b inside => ?_, holds.size_eq, ?_⟩
  · have once := holds.once (.destination job)
    simp only [tally, waiting, knows, inside, decide_true, Bool.toNat_true, List.count_nil,
      Nat.add_zero] at once
    by_cases member : job ∈ plan.unassigned
    · have positive := List.count_pos_iff.mpr member
      exact .inl ⟨member, nowhere_of_routed_eq_zero (by omega)⟩
    · rw [List.count_eq_zero.mpr member] at once
      exact .inr ⟨member, onlyOnce_of_routed_eq_one (by omega)⟩
  · have once := holds.once (.base b)
    simp only [tally, waiting, knows, inside, decide_true, Bool.toNat_true, List.count_nil,
      Nat.add_zero] at once
    cases free : plan.pool.isFree b with
    | true =>
        rw [free, Bool.toNat_true] at once
        exact .inl ⟨rfl, nowhere_of_routed_eq_zero (by omega)⟩
    | false =>
        rw [free, Bool.toNat_false] at once
        exact .inr ⟨rfl, onlyOnce_of_routed_eq_one (by omega)⟩
  · intro b base free known
    obtain ⟨e, found, isFree⟩ := BasePool.isFree_eq_true.mp free
    simp only [BasePool.base, found, Option.map_some, orOutOfTable_some, Except.ok.injEq] at known
    exact known ▸ holds.cleared e (List.mem_of_getElem? found) isFree

end Plan

theorem isFree_ofSize (size b : Nat) : (BasePool.ofSize size).isFree b = decide (b < size) := by
  by_cases inside : b < size
  · simp [BasePool.isFree, BasePool.ofSize, BasePool.ofBases, inside]
  · simp [BasePool.isFree, BasePool.ofSize, BasePool.ofBases, inside]

omit [Quantity α] in
/-- The plan in which every vehicle stays at home is there, whatever the pool. -/
theorem withPool_answers (p : Problem α) (pool : BasePool) :
    ∃ routes, Plan.withPool p pool =
        .ok ⟨routes, pool, .blank routes.length, List.range p.destinations.size⟩ ∧
      ∀ route ∈ routes, route.stops = [] := by
  obtain ⟨routes, unused⟩ : ∃ routes, (List.range p.vehicles.size).mapM (Route.unused p) =
      .ok routes := by
    apply mapM_answers
    intro v member
    have inside := List.mem_range.mp member
    refine ⟨⟨v, none, [], [], p.vehicles[v].departure⟩, ?_⟩
    simp [Route.unused, Problem.vehicle, inside, bind, Except.bind]
  refine ⟨routes, ?_, fun route member => ?_⟩
  · rw [Plan.withPool, unused]
    rfl
  · obtain ⟨v, _, found⟩ := mem_of_mapM_eq_ok unused member
    simp only [Route.unused, bind_eq_ok] at found
    rcases found with ⟨_, _, equal⟩
    cases equal
    rfl

omit [Quantity α] in
theorem withPool_conserves {p : Problem α} {size : Nat} {start : Plan α}
    (begins : Plan.withPool p (.ofSize size) = .ok start) :
    Conserved p.destinations.size size start := by
  obtain ⟨routes, equal, idle⟩ := withPool_answers p (.ofSize size)
  rw [equal] at begins
  cases begins
  refine ⟨fun stop => ?_, fun e member _ => ?_, ?_⟩
  · rw [tally, routed, List.sum_eq_zero_iff_forall_eq_nat.mpr]
    · cases stop with
      | destination job =>
          simp only [waiting, knows, List.count_nil, Nat.add_zero]
          by_cases inside : job < p.destinations.size
          · rw [List.nodup_range.count, if_pos (List.mem_range.mpr inside)]
            simp [inside]
          · rw [List.nodup_range.count, if_neg (by simpa using inside)]
            simp [inside]
      | base b => simp [waiting, knows, isFree_ofSize]
    · intro count member
      simp only [itineraries, List.map_map, List.mem_map] at member
      rcases member with ⟨route, among, rfl⟩
      simp [idle route among]
  · simp only [BasePool.ofSize, BasePool.ofBases, List.map_map, List.mem_map] at member
    rcases member with ⟨b, _, rfl⟩
    exact ⟨rfl, rfl⟩
  · simp [BasePool.size, BasePool.ofSize, BasePool.ofBases]

omit [Quantity α] in
/-- In the beginning no route visits anything. -/
theorem visits_empty {p : Problem α} {start : Plan α} (begins : Plan.empty p = .ok start)
    {r : Nat} {stops : List Stop} (visits : start.Visits r stops) : stops = [] := by
  obtain ⟨routes, equal, idle⟩ := withPool_answers p (.forJobs p.destinations.size)
  rw [Plan.empty, equal] at begins
  cases begins
  rcases visits with ⟨vehicle, found⟩
  obtain ⟨route, here, _, rfl⟩ := itineraries_eq_some.mp found
  exact idle route (List.mem_of_getElem? here)

/-- In the beginning the ledger knows nothing, and there is nothing to know. -/
theorem agrees_empty {p : Problem α} {start : Plan α} (begins : Plan.empty p = .ok start)
    (r : Nat) : start.Agrees p r := by
  intro stops visits
  have unknown : start.ledger.entry r = .unknown := by
    obtain ⟨routes, equal, _⟩ := withPool_answers p (.forJobs p.destinations.size)
    rw [Plan.empty, equal] at begins
    cases begins
    rw [Ledger.entry, Ledger.blank, List.getElem?_replicate]
    split
    · rfl
    · rfl
  rw [unknown, visits_empty begins visits]
  exact RouteEntry.agrees_unknown p _

/-- No history loses or duplicates a stop. -/
theorem reach_conserves {p : Problem α} {operations : List (Operation α)} {plan : Plan α}
    (reached : Plan.reach p operations = .ok plan) :
    Conserved p.destinations.size (max p.destinations.size 1) plan :=
  reach_keeps (Conserved p.destinations.size _)
    (fun operation _ _ holds => (operation.conserves p holds).mono (fun _ _ kept => kept)
      fun _ _ kept _ _ => kept) (fun _ begins => withPool_conserves begins) reached

/-- Whatever is done with a plan from its beginning on, in any order, no stop is lost or
duplicated. -/
theorem session_partitions (p : Problem α) (size : Nat) :
    ∃ start, Plan.withPool p (.ofSize size) = .ok start ∧
      (size = max p.destinations.size 1 → Plan.empty p = .ok start) ∧
      ∀ operations : List (Operation α),
        Partitioned p.destinations.size size (stateAfter (session p operations start)) := by
  obtain ⟨routes, begins, _⟩ := withPool_answers p (.ofSize size)
  have holds := withPool_conserves begins
  refine ⟨_, begins, ?_, fun operations => ?_⟩
  · rintro rfl
    exact begins
  · refine Holding.partitioned (session_leaves (Conserved p.destinations.size size) ?_ holds)
    intro operation _ plan kept
    exact operation.conserves p kept

end Haulage

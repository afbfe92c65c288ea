/-
Module: Haulage.Proofs.Removal
Purpose: What is left of a route when jobs are taken out of it, when it is repaired and when it is
  reset.
Main exports: tripsOf_filter, tripsOf_splitIdleBases, Plan.removeJob_changes,
  Plan.repairRoute_changes, Plan.resetRoute_changes, Plan.removeJobs_itineraries
-/
import Haulage.Pass.Removal
import Haulage.Proofs.ConservedSessions

namespace Haulage

variable {α : Type} [Quantity α]

/-! ### Jobs that are left out -/

/-- A trip without some jobs. -/
def Trip.without (removed : List Nat) (t : Trip) : Trip :=
  { t with jobs := t.jobs.filter (· ∉ removed) }

/-- Whether a stop is none of some jobs. -/
def Stop.isOutside (removed : List Nat) (stop : Stop) : Bool :=
  stop.job?.all (· ∉ removed)

theorem tripsOf_filter (removed served : List Nat) (stops : List Stop) :
    tripsOf (served.filter (· ∉ removed)) (stops.filter (Stop.isOutside removed)) =
      ((tripsOf served stops).1.map (Trip.without removed),
        (tripsOf served stops).2.filter (· ∉ removed)) := by
  induction stops generalizing served with
  | nil => rfl
  | cons stop rest inductionHypothesis =>
      cases stop with
      | destination job =>
          have later := inductionHypothesis (served ++ [job])
          rw [List.filter_append] at later
          by_cases among : job ∈ removed
          · have out : Stop.isOutside removed (.destination job) = false := by
              simp [Stop.isOutside, Stop.job?, among]
            rw [List.filter_cons_of_neg (by simp [among]), List.filter_nil, List.append_nil]
              at later
            rw [List.filter_cons_of_neg (by simp [out])]
            exact later
          · have stays : Stop.isOutside removed (.destination job) = true := by
              simp [Stop.isOutside, Stop.job?, among]
            rw [List.filter_cons_of_pos (by simp [among]), List.filter_nil] at later
            rw [List.filter_cons_of_pos stays]
            exact later
      | base b =>
          have later := inductionHypothesis []
          rw [List.filter_nil] at later
          rw [List.filter_cons_of_pos rfl, tripsOf, later]
          rfl

/-! ### Repair -/

namespace Plan

/-- Without the bases that close no trip, a route has its trips with jobs. -/
theorem tripsOf_splitIdleBases (served : List Nat) (stops : List Stop) :
    tripsOf served (splitIdleBases served.isEmpty stops).1 =
      ((tripsOf served stops).1.filter fun t => !t.jobs.isEmpty, (tripsOf served stops).2) := by
  induction stops generalizing served with
  | nil => rfl
  | cons stop rest inductionHypothesis =>
      cases stop with
      | destination job =>
          have later := inductionHypothesis (served ++ [job])
          have serving : (served ++ [job]).isEmpty = false := by simp
          rw [serving] at later
          exact later
      | base b =>
          have later := inductionHypothesis []
          rw [List.isEmpty_nil] at later
          cases served with
          | nil => simp [splitIdleBases, tripsOf, later]
          | cons first others => simp [splitIdleBases, tripsOf, later]

theorem closedTrips_splitIdleBases (stops : List Stop) :
    closedTrips (splitIdleBases true stops).1 =
      (closedTrips stops).filter fun t => !t.jobs.isEmpty :=
  congrArg Prod.fst (tripsOf_splitIdleBases [] stops)

variable {plan next : Plan α} {jobs bases : Nat}

omit [Quantity α] in
/-- A job is taken out of the route that serves it, if one does. -/
theorem removeJob_changes {job : Nat} {from? : Option Nat}
    (done : plan.removeJob job = .ok (from?, next)) :
    (from? = none ∧ next = plan ∧ plan.Nowhere (.destination job)) ∨
      ∃ r vehicle stops, from? = some r ∧ plan.itineraries[r]? = some (vehicle, stops) ∧
        .destination job ∈ stops ∧
        next.itineraries = plan.itineraries.set r (vehicle, stops.erase (.destination job)) ∧
        next.pool = plan.pool ∧ ChangesAt r plan next := by
  rcases removeJob_eq_ok.mp done with ⟨nowhere, rfl, rfl⟩ |
    ⟨r, route, position, stop, _, found, place, removed, rfl⟩
  · refine .inl ⟨rfl, rfl, fun route member => ?_⟩
    rw [routeOf?, List.findIdx?_eq_none_iff] at nowhere
    simpa using nowhere route member
  · obtain ⟨_, foundAgain, here, handed⟩ := removeStop_eq_ok.mp removed
    rw [found] at foundAgain
    cases foundAgain
    obtain ⟨inside, equal, _⟩ := List.idxOf?_eq_some_iff.mp place
    have position : position = route.stops.idxOf (.destination job) := by
      rw [List.idxOf_eq_getD_idxOf?, place, Option.getD_some]
    rw [List.getElem?_eq_getElem inside, equal] at here
    cases here
    rw [position, List.eraseIdx_idxOf_eq_erase] at handed
    cases handed
    have changed := itineraries_setRoute plan r
      { route with stops := route.stops.erase (.destination job) }
    exact .inr ⟨r, route.vehicle, route.stops, rfl,
      itineraries_of_route found, List.mem_of_getElem equal, changed, rfl,
      ⟨changesOnly_of_set ⟨_, rfl⟩ rfl, fun _ _ _ _ _ _ => rfl⟩⟩

omit [Quantity α] in
theorem ChangesAt.clearIdleBases {r count : Nat}
    (alone : ∀ stops b, plan.Visits r stops → .base b ∈ stops → plan.Alone r b)
    (done : plan.clearIdleBases r = .ok (count, next)) : ChangesAt r plan next := by
  obtain ⟨route, found, _, handed⟩ := clearIdleBases_eq_ok.mp done
  have taken := ChangesAt.setRoute plan r
    { route with stops := (splitIdleBases true route.stops).1 }
  refine taken.trans (ChangesAt.handBackAll (fun b member => ?_) handed)
  refine taken.toChangesOnly.alone (alone route.stops b (visits_of_route found) ?_)
  exact (splitIdleBases_perm true route.stops).mem_iff.mp (List.mem_append_left _ member)

omit [Quantity α] in
/-- A route loses the bases that close no trip, and the others stay where they lie. -/
theorem clearIdleBases_changes {r count : Nat} {held : List Stop}
    (holds : Holding jobs bases held plan) (done : plan.clearIdleBases r = .ok (count, next)) :
    ∃ vehicle stops, plan.itineraries[r]? = some (vehicle, stops) ∧
      next.itineraries = plan.itineraries.set r (vehicle, (splitIdleBases true stops).1) ∧
      ChangesAt r plan next ∧ ∀ b, .base b ∈ (splitIdleBases true stops).1 →
        next.pool.locationOf b = plan.pool.locationOf b := by
  obtain ⟨route, found, _, handed⟩ := clearIdleBases_eq_ok.mp done
  have visits : plan.itineraries[r]? = some (route.vehicle, route.stops) :=
    itineraries_of_route found
  have idle : ∀ b, Stop.base b ∈ (splitIdleBases true route.stops).2.map Stop.base →
      .base b ∈ route.stops := fun b member =>
    (splitIdleBases_perm true route.stops).mem_iff.mp (List.mem_append_left _ member)
  have changes : ChangesAt r plan next :=
    .clearIdleBases (fun _ _ visits member => holds.alone visits member) done
  refine ⟨route.vehicle, route.stops, visits, ?_, changes, fun b member => ?_⟩
  · rw [Plan.itineraries, (handBackAll_keeps handed).1, ← Plan.itineraries, itineraries_setRoute]
  · -- A base that stays and goes would be there twice.
    have absent : Stop.base b ∉ (splitIdleBases true route.stops).2.map Stop.base := by
      intro among
      have twice := (splitIdleBases_perm true route.stops).count_eq (.base b)
      have once := (holds.once_of_visits ⟨route.vehicle, visits⟩ (idle b among)).1
      have stays := List.count_pos_iff.mpr member
      have goes := List.count_pos_iff.mpr among
      rw [List.count_append] at twice
      omega
    have kept := base_handBackAll absent handed
    exact BasePool.locationOf_congr kept

/-- A repaired route has lost the bases that close no trip, and the ledger agrees with it. -/
theorem repairRoute_changes {p : Problem α} {r : Nat} {held : List Stop}
    (holds : Holding jobs bases held plan) (done : plan.repairRoute p r = .ok next) :
    ∃ vehicle stops, plan.itineraries[r]? = some (vehicle, stops) ∧
      next.itineraries = plan.itineraries.set r (vehicle, (splitIdleBases true stops).1) ∧
      ChangesAt r plan next ∧ next.Agrees p r ∧
      ∀ b, .base b ∈ (splitIdleBases true stops).1 →
        next.pool.locationOf b = plan.pool.locationOf b := by
  simp only [repairRoute, bind_eq_ok] at done
  rcases done with ⟨⟨count, cleared⟩, tidied, refreshed⟩
  obtain ⟨vehicle, stops, found, changed, changes, locations⟩ :=
    clearIdleBases_changes holds tidied
  obtain ⟨itineraries, pool, _⟩ := refreshRoute_keeps refreshed
  exact ⟨vehicle, stops, found, itineraries.trans changed, changes.trans (.refreshRoute refreshed),
    (refreshRoute_agrees refreshed).1, fun b member => pool ▸ locations b member⟩

/-- A repair hands back no job. -/
theorem mem_unassigned_repairRoute {p : Problem α} {r job : Nat}
    (done : plan.repairRoute p r = .ok next) : job ∈ next.unassigned ↔ job ∈ plan.unassigned := by
  simp only [repairRoute, bind_eq_ok] at done
  rcases done with ⟨⟨count, cleared⟩, tidied, refreshed⟩
  obtain ⟨route, found, _, handed⟩ := clearIdleBases_eq_ok.mp tidied
  rw [(refreshRoute_keeps refreshed).2.2, mem_handBackAll handed]
  simp

/-- A route that was reset visits nothing. -/
theorem resetRoute_changes {p : Problem α} {r : Nat} {held : List Stop}
    (holds : Holding jobs bases held plan) (done : plan.resetRoute p r = .ok next) :
    ∃ vehicle stops, plan.itineraries[r]? = some (vehicle, stops) ∧
      next.itineraries = plan.itineraries.set r (vehicle, []) ∧ ChangesAt r plan next := by
  obtain ⟨route, emptied, cleared, found, handed, vehicle, empty, rfl⟩ := resetRoute_eq_ok done
  have visits : plan.itineraries[r]? = some (route.vehicle, route.stops) :=
    itineraries_of_route found
  have changes : ChangesAt r plan (emptied.setRoute r cleared) := by
    refine (ChangesAt.handBackAll (fun b member => ?_) handed).trans (.setRoute _ _ _)
    exact holds.alone ⟨route.vehicle, visits⟩ member
  refine ⟨route.vehicle, route.stops, visits, ?_, ⟨⟨changes.size_eq, changes.routes,
    fun i apart => ?_, changes.enters.trans (Ledger.length_modifyEntry _ _ _)⟩, changes.bases⟩⟩
  · have emptied_itineraries : emptied.itineraries = plan.itineraries := by
      rw [itineraries, (handBackAll_keeps handed).1, itineraries]
    show (emptied.setRoute r cleared).itineraries = _
    rw [itineraries_setRoute, emptied_itineraries, vehicle, empty]
  · exact (Ledger.entry_modifyEntry_of_ne _ apart _).trans (changes.entries i apart)

/-! ### Removal of several jobs -/

/-- Without some jobs, wherever they are served. -/
def itinerariesWithout (removed : List Nat) (plan : Plan α) : List (Nat × List Stop) :=
  plan.itineraries.map fun itinerary => (itinerary.1, itinerary.2.filter (Stop.isOutside removed))

theorem isOutside_nil : Stop.isOutside [] = fun _ => true := by
  funext stop
  cases stop with
  | destination job => rfl
  | base b => rfl

/-- Leaving out some jobs and then others. -/
theorem filter_isOutside_append (first second : List Nat) (stops : List Stop) :
    stops.filter (Stop.isOutside (first ++ second)) =
      (stops.filter (Stop.isOutside first)).filter (Stop.isOutside second) := by
  rw [List.filter_filter]
  apply List.filter_congr
  intro stop _
  cases stop with
  | base b => rfl
  | destination job => simp [Stop.isOutside, Stop.job?, Bool.and_comm]

/-- Whether a route serves one of several jobs can be asked of one job after the other. -/
theorem serves_cons_iff {job : Nat} {given : List Nat} {stops : List Stop} :
    (∃ other ∈ job :: given, .destination other ∈ stops) ↔
      .destination job ∈ stops ∨
        ∃ other ∈ given, .destination other ∈ stops.filter (Stop.isOutside [job]) := by
  constructor
  · rintro ⟨other, among, member⟩
    by_cases same : other = job
    · exact .inl (same ▸ member)
    · refine .inr ⟨other, (List.mem_cons.mp among).resolve_left same, ?_⟩
      exact List.mem_filter.mpr ⟨member, by simpa [Stop.isOutside, Stop.job?] using same⟩
  · rintro (here | ⟨other, among, member⟩)
    · exact ⟨job, List.mem_cons_self, here⟩
    · exact ⟨other, List.mem_cons_of_mem job among, (List.mem_filter.mp member).1⟩

/-- Jobs that are not served cannot be left out. -/
theorem filter_isOutside_of_notMem {stops : List Stop} {removed : List Nat}
    (absent : ∀ job ∈ removed, .destination job ∉ stops) :
    stops.filter (Stop.isOutside removed) = stops := by
  apply List.filter_eq_self.mpr
  intro stop among
  cases stop with
  | base b => rfl
  | destination job =>
      have apart : job ∉ removed := fun member => absent job member among
      simpa [Stop.isOutside, Stop.job?] using apart

/-- A stop that occurs once is erased by leaving it out everywhere. -/
theorem erase_eq_filter {stops : List Stop} {job : Nat}
    (once : stops.count (.destination job) = 1) :
    stops.erase (.destination job) = stops.filter (Stop.isOutside [job]) := by
  have member : Stop.destination job ∈ stops := List.count_pos_iff.mp (by omega)
  obtain ⟨before, rest, absent, rfl, erased⟩ := List.exists_erase_eq member
  have later : Stop.destination job ∉ rest := by
    rw [List.count_append, List.count_cons_self] at once
    exact List.count_eq_zero.mp (by omega)
  have out : ¬ Stop.isOutside [job] (.destination job) = true := by
    simp [Stop.isOutside, Stop.job?]
  rw [erased, List.filter_append, List.filter_cons_of_neg out,
    filter_isOutside_of_notMem (by simpa using absent),
    filter_isOutside_of_notMem (by simpa using later)]

omit [Quantity α] in
theorem removeJob_itineraries {job : Nat} {from? : Option Nat}
    (conserved : Conserved jobs bases plan) (done : plan.removeJob job = .ok (from?, next)) :
    next.itineraries = plan.itinerariesWithout [job] ∧
      ∀ r stops, plan.Visits r stops → (from? = some r ↔ .destination job ∈ stops) := by
  rcases removeJob_changes done with ⟨rfl, rfl, nowhere⟩ |
    ⟨r, vehicle, stops, rfl, found, member, changed, _⟩
  · have absent : ∀ r stops, next.Visits r stops → .destination job ∉ stops := by
      rintro r stops ⟨vehicle, found⟩
      obtain ⟨route, here, _, rfl⟩ := itineraries_eq_some.mp found
      exact nowhere route (List.mem_of_getElem? here)
    refine ⟨((List.map_congr_left fun itinerary among => ?_).trans (List.map_id _)).symm,
      fun r stops visits => ?_⟩
    · obtain ⟨r, found⟩ := List.mem_iff_getElem?.mp among
      rw [filter_isOutside_of_notMem (by simpa using absent r _ ⟨_, found⟩)]
      rfl
    · simp [absent r stops visits]
  · obtain ⟨once, alone⟩ := conserved.once_of_visits ⟨vehicle, found⟩ member
    constructor
    · apply List.ext_getElem?
      intro i
      rw [changed, itinerariesWithout, List.getElem?_map]
      by_cases same : r = i
      · subst same
        rw [List.getElem?_set_self (List.getElem?_eq_some_iff.mp found).1, found,
          erase_eq_filter once]
        rfl
      · rw [List.getElem?_set_ne same]
        cases other : plan.itineraries[i]? with
        | none => rfl
        | some itinerary =>
            rw [Option.map_some, filter_isOutside_of_notMem (by simpa using alone i _ same ⟨_, other⟩)]
    · rintro i others ⟨vehicle', there⟩
      constructor
      · intro equal
        cases equal
        rw [found] at there
        cases there
        exact member
      · intro among
        by_contra apart
        exact alone i others (fun same => apart (congrArg some same)) ⟨vehicle', there⟩ among

omit [Quantity α] in
/-- Taking jobs out leaves each route without them, and lists the routes that served one. -/
theorem removeJobs_itineraries {given : List Nat} {removed : List (Nat × Nat)}
    (conserved : Conserved jobs bases plan) (done : plan.removeJobs given = .ok (removed, next)) :
    next.itineraries = plan.itinerariesWithout given ∧
      ∀ r stops, plan.Visits r stops →
        (removed.any (·.2 = r) = true ↔ ∃ job ∈ given, .destination job ∈ stops) := by
  induction given generalizing plan removed with
  | nil =>
      cases done
      refine ⟨?_, fun r stops _ => by simp⟩
      simp [itinerariesWithout, isOutside_nil]
  | cons job given inductionHypothesis =>
      simp only [removeJobs, bind_eq_ok] at done
      rcases done with ⟨⟨from?, shorter⟩, first, ⟨others, last⟩, later, equal⟩
      have kept := Holding.removeJob conserved first
      obtain ⟨taken, serves⟩ := removeJob_itineraries conserved first
      have answer : last = next ∧ ∀ r, removed.any (·.2 = r) =
          (decide (from? = some r) || others.any (·.2 = r)) := by
        cases from? with
        | none =>
            cases equal
            exact ⟨rfl, fun r => by simp⟩
        | some s =>
            cases equal
            exact ⟨rfl, fun r => by simp⟩
      rcases answer with ⟨rfl, listed⟩
      obtain ⟨itineraries, touched⟩ := inductionHypothesis kept later
      constructor
      · rw [itineraries, itinerariesWithout, taken, itinerariesWithout, itinerariesWithout,
          List.map_map]
        apply List.map_congr_left
        intro itinerary _
        exact congrArg (Prod.mk itinerary.1) (filter_isOutside_append [job] given itinerary.2).symm
      · rintro r stops ⟨vehicle, found⟩
        have there : shorter.Visits r (stops.filter (Stop.isOutside [job])) :=
          ⟨vehicle, by rw [taken, itinerariesWithout, List.getElem?_map, found]; rfl⟩
        rw [listed, Bool.or_eq_true, decide_eq_true_eq, serves r stops ⟨vehicle, found⟩,
          touched r _ there, serves_cons_iff]

/-- Repaired routes have lost their idle bases, and all other routes are as they were. -/
theorem repairRoutes_itineraries {p : Problem α} {routes : List Nat}
    (conserved : Conserved jobs bases plan) (distinct : routes.Nodup)
    (done : routes.foldlM (repairRoute p) plan = .ok next) :
    next.itineraries.length = plan.itineraries.length ∧
      ∀ (r vehicle : Nat) (stops : List Stop), plan.itineraries[r]? = some (vehicle, stops) →
        next.itineraries[r]? =
          some (vehicle, if r ∈ routes then (splitIdleBases true stops).1 else stops) := by
  induction routes generalizing plan with
  | nil =>
      cases done
      exact ⟨rfl, fun r vehicle stops found => by simpa using found⟩
  | cons s routes inductionHypothesis =>
      rw [List.foldlM_cons, bind_eq_ok] at done
      rcases done with ⟨repaired, head, tail⟩
      obtain ⟨absent, others⟩ := List.nodup_cons.mp distinct
      obtain ⟨length, later⟩ :=
        inductionHypothesis (repairRoute_conserves conserved head) others tail
      obtain ⟨home, old, here, changed, changes, _⟩ := repairRoute_changes conserved head
      refine ⟨length.trans changes.length_eq, fun r vehicle stops found => ?_⟩
      by_cases same : s = r
      · subst same
        rw [found] at here
        cases here
        have now := later s home (splitIdleBases true old).1 (by
          rw [changed, List.getElem?_set_self (List.getElem?_eq_some_iff.mp found).1])
        rw [if_pos List.mem_cons_self]
        rwa [if_neg absent] at now
      · have kept := later r vehicle stops ((changes.others same).trans found)
        simpa [Ne.symm same] using kept

/-! ### The ledger after a removal -/

/-- Jobs that are taken out leave the ledger right about all other routes. -/
theorem removeJobs_agrees {p : Problem α} {given : List Nat} {removed : List (Nat × Nat)}
    (done : plan.removeJobs given = .ok (removed, next)) (r : Nat) (agrees : plan.Agrees p r)
    (apart : ∀ pair ∈ removed, pair.2 ≠ r) : next.Agrees p r := by
  induction given generalizing plan removed with
  | nil =>
      cases done
      exact agrees
  | cons job given inductionHypothesis =>
      simp only [removeJobs, bind_eq_ok] at done
      rcases done with ⟨⟨from?, shorter⟩, first, ⟨others, last⟩, later, equal⟩
      rcases removeJob_changes first with ⟨rfl, rfl, _⟩ | ⟨i, _, _, rfl, _, _, _, _, changes⟩
      · cases equal
        exact inductionHypothesis later agrees apart
      · cases equal
        refine inductionHypothesis later (agrees.elsewhere changes ?_) fun pair among =>
          apart pair (List.mem_cons_of_mem _ among)
        exact apart (job, i) List.mem_cons_self

/-- The ledger agrees with repaired routes, and with the others as before. -/
theorem repairRoutes_agrees {p : Problem α} {routes : List Nat}
    (conserved : Conserved jobs bases plan) (done : routes.foldlM (repairRoute p) plan = .ok next)
    (r : Nat) (agrees : plan.Agrees p r ∨ r ∈ routes) : next.Agrees p r := by
  induction routes generalizing plan with
  | nil =>
      cases done
      simpa using agrees
  | cons s routes inductionHypothesis =>
      rw [List.foldlM_cons, bind_eq_ok] at done
      rcases done with ⟨repaired, head, tail⟩
      obtain ⟨_, _, _, _, changes, own, _⟩ := repairRoute_changes conserved head
      refine inductionHypothesis (repairRoute_conserves conserved head) tail ?_
      by_cases same : s = r
      · exact .inl (same ▸ own)
      · rcases agrees with already | member
        · exact .inl (already.elsewhere changes same)
        · exact .inr ((List.mem_cons.mp member).resolve_left (Ne.symm same))

/-- After a removal the ledger agrees with each route that it agreed with before. -/
theorem ruin_agrees {p : Problem α} {given removed : List Nat}
    (conserved : Conserved jobs bases plan) (agrees : ∀ r, plan.Agrees p r)
    (done : plan.ruin p given = .ok (removed, next)) (r : Nat) : next.Agrees p r := by
  simp only [ruin, bind_eq_ok] at done
  rcases done with ⟨⟨pairs, shorter⟩, taken, last, repaired, equal⟩
  cases equal
  apply repairRoutes_agrees (removeJobs_conserves conserved taken) repaired
  -- A route either lost no job, or it was repaired.
  by_cases touched : pairs.any (·.2 = r)
  · by_cases inside : r ∈ shorter.routeIds
    · exact .inr (List.mem_filter.mpr ⟨inside, touched⟩)
    · exact .inl fun stops visits => absurd visits.mem_routeIds inside
  · refine .inl (removeJobs_agrees taken r (agrees r) fun pair among same => touched ?_)
    exact List.any_eq_true.mpr ⟨pair, among, by simpa using same⟩

/-- After a reset the ledger knows of no trip on the route, which has none. -/
theorem resetRoute_agrees {p : Problem α} {r : Nat} {held : List Stop}
    (holds : Holding jobs bases held plan) (agrees : ∀ i, plan.Agrees p i)
    (done : plan.resetRoute p r = .ok next) (i : Nat) : next.Agrees p i := by
  obtain ⟨vehicle, stops, found, changed, changes⟩ := resetRoute_changes holds done
  apply agrees_of_changesAt agrees changes
  rintro others ⟨_, visits⟩
  rw [changed, List.getElem?_set_self (List.getElem?_eq_some_iff.mp found).1] at visits
  cases visits
  obtain ⟨_, emptied, _, _, _, _, _, rfl⟩ := resetRoute_eq_ok done
  rw [Ledger.clearRoute, Ledger.entry_modifyEntry_self]
  exact RouteEntry.agrees_unknown p _

end Plan

end Haulage

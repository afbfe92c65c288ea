/-
Module: Haulage.Proofs.Shape
Purpose: The shape that edits leave of a route.  Each trip serves a job and ends at a base that lies
  somewhere; only a base that was put into a route on its own leaves jobs behind it.
Main exports: InTrips, InTrips.insertJob, InTrips.close, InTrips.drop, Plan.AllInTrips,
  Plan.AllInTrips.ruin
-/
import Haulage.Proofs.Removal

namespace Haulage

open Attempt Plan

/-! ### Stops in trips -/

/-- Every closed trip serves a job, and its base lies somewhere.  Unless trips may be split, no job
is left behind the last base. -/
structure InTrips (splits : Prop) (pool : BasePool) (stops : List Stop) : Prop where
  serves : ∀ t ∈ closedTrips stops, t.jobs ≠ []
  located : ∀ b, .base b ∈ stops → ∃ location, pool.locationOf b = some location
  closed : ¬ splits → openJobs stops = []

namespace InTrips

variable {splits : Prop} {pool other : BasePool} {stops before after placed rest : List Stop}
  {trip : List Nat} {b : Nat}

theorem nil (splits : Prop) (pool : BasePool) : InTrips splits pool [] :=
  ⟨fun _ member => absurd member List.not_mem_nil, fun _ member => absurd member List.not_mem_nil,
    fun _ => rfl⟩

theorem congr (inTrips : InTrips splits pool stops)
    (same : ∀ b, .base b ∈ stops → other.locationOf b = pool.locationOf b) :
    InTrips splits other stops :=
  ⟨inTrips.serves, fun b member => same b member ▸ inTrips.located b member, inTrips.closed⟩

/-- A job that is put in front of other stops belongs to their trip. -/
theorem insertJob (job : Nat) (inTrips : InTrips splits pool (before ++ after))
    (followed : after ≠ []) : InTrips splits pool (before ++ .destination job :: after) := by
  rcases inTrips with ⟨serves, located, closed⟩
  have bases : ∀ b, Stop.base b ∈ before ++ .destination job :: after → .base b ∈ before ++ after :=
    fun b member => by simpa using member
  rw [closedTrips_append] at serves
  rw [openJobs_append] at closed
  obtain ⟨lead, rfl | ⟨b, rest, rfl⟩⟩ := exists_lead after
  · rw [tripsOf_destinations] at serves closed
    refine ⟨?_, fun b member => located b (bases b member), fun whole => ?_⟩
    · rw [closedTrips_append, tripsOf, tripsOf_destinations]
      exact serves
    · have none := closed whole
      simp only [List.append_eq_nil_iff] at none
      exact absurd (by simp [none.2]) followed
  · rw [tripsOf_lead] at serves closed
    refine ⟨fun t member => ?_, fun b member => located b (bases b member), fun whole => ?_⟩
    · rw [closedTrips_append, tripsOf, tripsOf_lead] at member
      rcases List.mem_append.mp member with earlier | later
      · exact serves t (List.mem_append_left _ earlier)
      · rcases List.mem_cons.mp later with rfl | behind
        · simp
        · exact serves t (List.mem_append_right _ (List.mem_cons_of_mem _ behind))
    · rw [openJobs_append, tripsOf, tripsOf_lead]
      exact closed whole

/-- A job at the end is left behind the last base. -/
theorem appendJob (job : Nat) (inTrips : InTrips splits pool stops) :
    InTrips True pool (stops ++ [.destination job]) := by
  refine ⟨?_, fun b member => inTrips.located b (by simpa using member), fun no => absurd trivial no⟩
  rw [closedTrips_append_destination]
  exact inTrips.serves

/-- A base behind a job, and in front of none, closes a trip. -/
theorem close (inTrips : InTrips True pool (before ++ after)) (serves : openJobs before ≠ [])
    (unclosed : after.head?.all (·.isDestination) = true)
    (located : ∃ location, other.locationOf b = some location)
    (same : ∀ c, .base c ∈ before ++ after → other.locationOf c = pool.locationOf c)
    (tail : ¬ splits → openJobs after = []) :
    InTrips splits other (before ++ .base b :: after) := by
  have later : ∀ t ∈ closedTrips after, t.jobs ≠ [] := by
    have before := inTrips.serves
    rw [closedTrips_append] at before
    obtain ⟨lead, rfl | ⟨c, rest, rfl⟩⟩ := exists_lead after
    · rw [closedTrips, tripsOf_destinations]
      simp
    · rw [tripsOf_lead] at before
      rw [closedTrips, tripsOf_lead]
      intro t member
      rcases List.mem_cons.mp member with rfl | behind
      · rintro rfl
        simp [Stop.isDestination] at unclosed
      · exact before t (List.mem_append_right _ (List.mem_cons_of_mem _ behind))
  refine ⟨fun t member => ?_, fun c member => ?_, fun whole => ?_⟩
  · rw [closedTrips_append, tripsOf, ← closedTrips] at member
    rcases List.mem_append.mp member with earlier | behind
    · apply inTrips.serves t
      rw [closedTrips_append]
      exact List.mem_append_left _ earlier
    · rcases List.mem_cons.mp behind with rfl | last
      · exact serves
      · exact later t last
  · by_cases own : c = b
    · exact own ▸ located
    · have elsewhere : .base c ∈ before ++ after := by simpa [own] using member
      exact same c elsewhere ▸ inTrips.located c elsewhere
  · rw [openJobs_append, tripsOf]
    exact tail whole

/-- A trip is taken out with its base. -/
theorem drop (inTrips : InTrips splits pool (placed ++ (trip.map .destination ++ .base b :: rest)))
    (tail : openJobs placed = []) : InTrips splits pool (placed ++ rest) := by
  rcases inTrips with ⟨serves, located, closed⟩
  rw [closedTrips_append, tail, tripsOf_lead] at serves
  rw [openJobs_append, tail, tripsOf_lead] at closed
  refine ⟨fun t member => serves t ?_, fun c member => located c ?_, ?_⟩
  · rw [closedTrips_append, tail] at member
    exact (List.sublist_cons_self _ _).append_left _ |>.subset member
  · rcases List.mem_append.mp member with earlier | later
    · exact List.mem_append_left _ earlier
    · simp [later]
  · rw [openJobs_append, tail]
    exact closed

/-- Without its idle bases, a route is in trips. -/
theorem of_splitIdleBases (located : ∀ b, .base b ∈ stops → ∃ location, pool.locationOf b = some
    location) (closed : ¬ splits → openJobs stops = []) :
    InTrips splits pool (splitIdleBases true stops).1 := by
  refine ⟨fun t member => ?_, fun b member => located b ?_, fun whole => ?_⟩
  · rw [closedTrips_splitIdleBases] at member
    simpa using (List.mem_filter.mp member).2
  · exact (splitIdleBases_perm true stops).mem_iff.mp (List.mem_append_right _ member)
  · rw [openJobs, show true = ([] : List Nat).isEmpty from rfl, tripsOf_splitIdleBases]
    exact closed whole

/-- Jobs are taken out of a route, and then the bases that close no trip any more. -/
theorem without (removed : List Nat) (inTrips : InTrips splits pool stops) :
    InTrips splits pool (splitIdleBases true (stops.filter (Stop.isOutside removed))).1 := by
  apply of_splitIdleBases
  · exact fun b member => inTrips.located b (List.mem_filter.mp member).1
  · intro whole
    have left := congrArg Prod.snd (tripsOf_filter removed [] stops)
    rw [List.filter_nil] at left
    rw [openJobs, left, ← openJobs, inTrips.closed whole]
    rfl

end InTrips

/-! ### Plans with all stops in trips -/

variable {α : Type} [Quantity α] {splits : Prop} {jobs bases : Nat}

/-- A plan that loses no stop, with the stops of every route in trips. -/
structure Plan.AllInTrips (splits : Prop) (jobs bases : Nat) (plan : Plan α) : Prop where
  conserved : Conserved jobs bases plan
  routes : ∀ r stops, plan.Visits r stops → InTrips splits plan.pool stops

namespace Plan.AllInTrips

variable {plan next : Plan α} {r : Nat} {stops : List Stop}

omit [Quantity α] in
/-- A change of one route leaves all others in trips. -/
theorem changed (all : plan.AllInTrips splits jobs bases) (changes : ChangesAt r plan next)
    (conserved : Conserved jobs bases next) (visits : next.Visits r stops)
    (own : InTrips splits next.pool stops) : next.AllInTrips splits jobs bases := by
  refine ⟨conserved, fun i others there => ?_⟩
  by_cases same : r = i
  · subst same
    rcases visits with ⟨vehicle, found⟩
    rcases there with ⟨_, again⟩
    rw [found] at again
    cases again
    exact own
  · have before := (changes.toChangesOnly.visits same).mp there
    exact (all.routes i others before).congr fun b => changes.locations i others b same before

theorem refreshRoute {p : Problem α} (all : plan.AllInTrips splits jobs bases)
    (done : plan.refreshRoute p r = .ok next) : next.AllInTrips splits jobs bases := by
  obtain ⟨itineraries, pool, _⟩ := refreshRoute_keeps done
  refine ⟨Holding.refreshRoute all.conserved done, fun i stops visits => ?_⟩
  rw [pool]
  rw [Visits, itineraries] at visits
  exact all.routes i stops visits

theorem refreshRoutes {p : Problem α} (all : plan.AllInTrips splits jobs bases)
    (done : plan.refreshRoutes p = .ok next) : next.AllInTrips splits jobs bases :=
  foldlM_keeps (Plan.AllInTrips splits jobs bases) (fun _ _ _ _ => refreshRoute) all done

omit [Quantity α] in
theorem refreshBases (all : plan.AllInTrips splits jobs bases)
    (done : plan.refreshBases = .ok next) : next.AllInTrips splits jobs bases := by
  obtain ⟨itineraries, _, locations⟩ := refreshBases_keeps done
  refine ⟨Holding.refreshBases all.conserved done, fun i stops visits => ?_⟩
  rw [Visits, itineraries] at visits
  exact (all.routes i stops visits).congr fun b => locations i stops b visits

omit [Quantity α] in
/-- A base in a route may be put anywhere. -/
theorem placeBase {b location : Nat} {duration : Duration}
    (all : plan.AllInTrips splits jobs bases) (visits : plan.Visits r stops)
    (member : .base b ∈ stops) (put : plan.placeBase b location duration = .ok next) :
    next.AllInTrips splits jobs bases := by
  have alone := all.conserved.alone visits member
  have conserved := Holding.placeBase all.conserved (all.conserved.taken_of_visits visits member) put
  have changes : ChangesAt r plan next := .placeBase alone put
  obtain ⟨inside, rfl⟩ := placeBase_eq_ok.mp put
  have own := all.routes r stops visits
  refine all.changed changes conserved visits ⟨own.serves, fun c among => ?_, own.closed⟩
  by_cases same : b = c
  · exact ⟨location, same ▸ BasePool.locationOf_placed_self inside⟩
  · obtain ⟨place, lies⟩ := own.located c among
    exact ⟨place, (BasePool.locationOf_modifyEntry_of_ne same _).trans lies⟩

/-! ### Removal -/

omit [Quantity α] in
theorem clearIdleBases {count : Nat} (all : plan.AllInTrips splits jobs bases)
    (done : plan.clearIdleBases r = .ok (count, next)) : next.AllInTrips splits jobs bases := by
  obtain ⟨vehicle, stops, found, changed, changes, locations⟩ :=
    clearIdleBases_changes all.conserved done
  have visits : next.Visits r (splitIdleBases true stops).1 :=
    ⟨vehicle, by rw [changed, List.getElem?_set_self (List.getElem?_eq_some_iff.mp found).1]⟩
  have own := all.routes r stops ⟨vehicle, found⟩
  refine all.changed changes (Holding.clearIdleBases all.conserved done) visits ?_
  exact (InTrips.of_splitIdleBases own.located own.closed).congr locations

theorem repairRoute {p : Problem α} (all : plan.AllInTrips splits jobs bases)
    (done : plan.repairRoute p r = .ok next) : next.AllInTrips splits jobs bases := by
  simp only [Plan.repairRoute, bind_eq_ok] at done
  rcases done with ⟨_, tidied, refreshed⟩
  exact (all.clearIdleBases tidied).refreshRoute refreshed

/-- Routes of which some are in trips only once they are repaired. -/
theorem repairRoutes {p : Problem α} {routes : List Nat} (conserved : Conserved jobs bases plan)
    (distinct : routes.Nodup)
    (each : ∀ r stops, plan.Visits r stops → InTrips splits plan.pool
      (if r ∈ routes then (splitIdleBases true stops).1 else stops))
    (done : routes.foldlM (Plan.repairRoute p) plan = .ok next) :
    next.AllInTrips splits jobs bases := by
  induction routes generalizing plan with
  | nil =>
      cases done
      exact ⟨conserved, fun r stops visits => by simpa using each r stops visits⟩
  | cons s routes inductionHypothesis =>
      rw [List.foldlM_cons, bind_eq_ok] at done
      rcases done with ⟨repaired, head, tail⟩
      obtain ⟨absent, others⟩ := List.nodup_cons.mp distinct
      obtain ⟨vehicle, old, here, changed, changes, _, locations⟩ :=
        repairRoute_changes conserved head
      refine inductionHypothesis (repairRoute_conserves conserved head) others ?_ tail
      intro r stops visits
      by_cases same : s = r
      · subst same
        rcases visits with ⟨_, found⟩
        rw [changed, List.getElem?_set_self (List.getElem?_eq_some_iff.mp here).1] at found
        cases found
        rw [if_neg absent]
        have own := each s old ⟨vehicle, here⟩
        rw [if_pos List.mem_cons_self] at own
        exact own.congr locations
      · have before := (changes.toChangesOnly.visits same).mp visits
        have own := each r stops before
        simp only [List.mem_cons, Ne.symm same, false_or] at own
        refine own.congr fun b member => changes.locations r stops b same before ?_
        split at member
        · exact (splitIdleBases_perm true stops).mem_iff.mp (List.mem_append_right _ member)
        · exact member

theorem ruin {p : Problem α} {given removed : List Nat} (all : plan.AllInTrips splits jobs bases)
    (done : plan.ruin p given = .ok (removed, next)) : next.AllInTrips splits jobs bases := by
  simp only [Plan.ruin, bind_eq_ok] at done
  rcases done with ⟨⟨pairs, shorter⟩, taken, last, repaired, equal⟩
  cases equal
  obtain ⟨itineraries, listed⟩ := removeJobs_itineraries all.conserved taken
  have pool : shorter.pool = plan.pool := by
    refine removeJobs_keeps (fun q : Plan α => q.pool = plan.pool)
      (fun before after job from? same removed => ?_) rfl taken
    rcases removeJob_changes removed with ⟨_, rfl, _⟩ | ⟨_, _, _, _, _, _, _, kept, _⟩
    · exact same
    · exact kept.trans same
  refine repairRoutes (removeJobs_conserves all.conserved taken) (List.nodup_range.filter _) ?_
    repaired
  rintro r left ⟨vehicle, found⟩
  have inside : r ∈ shorter.routeIds := Visits.mem_routeIds ⟨vehicle, found⟩
  rw [itineraries, itinerariesWithout, List.getElem?_map, Option.map_eq_some_iff] at found
  obtain ⟨⟨vehicle, stops⟩, here, equal⟩ := found
  cases equal
  have visits : plan.Visits r stops := ⟨vehicle, here⟩
  have own := all.routes r stops visits
  rw [pool]
  split
  · exact own.without given
  · rename_i untouched
    -- None of the jobs is served here, so none is missing.
    have whole : stops.filter (Stop.isOutside given) = stops := by
      apply filter_isOutside_of_notMem
      intro job among member
      apply untouched
      exact List.mem_filter.mpr ⟨inside, (listed r stops visits).mpr ⟨job, among, member⟩⟩
    exact whole.symm ▸ own

theorem resetRoute {p : Problem α} (all : plan.AllInTrips splits jobs bases)
    (done : plan.resetRoute p r = .ok next) : next.AllInTrips splits jobs bases := by
  obtain ⟨vehicle, stops, found, changed, changes⟩ := resetRoute_changes all.conserved done
  have visits : next.Visits r [] :=
    ⟨vehicle, by rw [changed, List.getElem?_set_self (List.getElem?_eq_some_iff.mp found).1]⟩
  exact all.changed changes (Holding.resetRoute all.conserved done) visits (.nil splits _)

end Plan.AllInTrips

end Haulage

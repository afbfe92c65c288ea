/-
Module: Haulage.Proofs.RuinTogether
Purpose: A removal depends only on the jobs that are removed.  What it leaves is described without
  reference to their order, nothing else fits the description, and whatever fits is found.
Main exports: Plan.Shrinks, Plan.Loses, Plan.Loses.unique, Plan.ruinsTo_iff_loses, ruin_together
-/
import Haulage.Proofs.Leftover
import Haulage.Proofs.Undone
import Haulage.Proofs.WholeTrips
import Mathlib.Data.List.Sort

namespace Haulage

variable {α : Type} [Quantity α]

open Attempt Plan

/-! ### Plans from which stops were taken -/

/-- The vehicle of a route and the departure that was fixed with it. -/
def Route.crew (route : Route) : Nat × Option Instant := (route.vehicle, route.fixedDeparture)

/-- A plan from which stops were taken.  Routes keep their vehicles and departures.  A base either
is as it was, or it has become free and was cleared.  Marks for the job at hand are kept, and so is
what the ledger holds about routes that are not there. -/
structure Plan.Shrinks (plan next : Plan α) : Prop where
  crews : next.routes.map Route.crew = plan.routes.map Route.crew
  entries : ∀ b, next.pool.entries[b]? = plan.pool.entries[b]? ∨
    (plan.pool.isFree b = false ∧ next.pool.isFree b = true ∧
      next.pool.entries[b]? = (plan.pool.entries[b]?).map fun e => ⟨e.base.clear, true⟩)
  marks : ∀ r, (next.ledger.entry r).needsBase = (plan.ledger.entry r).needsBase
  enters : next.ledger.routes.length = plan.ledger.routes.length
  beyond : ∀ r, plan.routes.length ≤ r → next.ledger.entry r = plan.ledger.entry r

theorem BasePool.isFree_congr {pool other : BasePool} {b : Nat}
    (same : other.entries[b]? = pool.entries[b]?) : other.isFree b = pool.isFree b := by
  rw [isFree, isFree, same]

namespace Plan

section

variable {plan middle next : Plan α} {r b : Nat} {route now : Route}

omit [Quantity α]

theorem Shrinks.refl (plan : Plan α) : plan.Shrinks plan :=
  ⟨rfl, fun _ => .inl rfl, fun _ => rfl, rfl, fun _ _ => rfl⟩

theorem Shrinks.length_eq (shrinks : plan.Shrinks next) :
    next.routes.length = plan.routes.length := by
  simpa using congrArg List.length shrinks.crews

theorem Shrinks.trans (first : plan.Shrinks middle) (second : middle.Shrinks next) :
    plan.Shrinks next where
  crews := second.crews.trans first.crews
  entries b := by
    rcases first.entries b with same | ⟨taken, free, cleared⟩
    · rcases second.entries b with still | ⟨taken, free, cleared⟩
      · exact .inl (still.trans same)
      · rw [BasePool.isFree_congr same] at taken
        rw [same] at cleared
        exact .inr ⟨taken, free, cleared⟩
    · rcases second.entries b with still | ⟨takenThen, _, _⟩
      · exact .inr ⟨taken, (BasePool.isFree_congr still).trans free, still.trans cleared⟩
      · rw [free] at takenThen
        cases takenThen
  marks r := (second.marks r).trans (first.marks r)
  enters := second.enters.trans first.enters
  beyond r beyond := (second.beyond r (first.length_eq ▸ beyond)).trans (first.beyond r beyond)

/-- A base that is not free is as it was. -/
theorem Shrinks.base_eq (shrinks : plan.Shrinks next) (taken : next.pool.isFree b = false) :
    next.pool.base b = plan.pool.base b := by
  rcases shrinks.entries b with same | ⟨_, free, _⟩
  · rw [BasePool.base, BasePool.base, same]
  · rw [free] at taken
    cases taken

theorem shrinks_setRoute (found : plan.routes[r]? = some route) (same : now.crew = route.crew) :
    plan.Shrinks (plan.setRoute r now) where
  crews := by
    apply List.ext_getElem?
    intro i
    rw [List.getElem?_map, List.getElem?_map]
    by_cases own : r = i
    · subst own
      rw [routes_setRoute_self found, found, Option.map_some, Option.map_some, same]
    · rw [routes_setRoute_of_ne own]
  entries _ := .inl rfl
  marks _ := rfl
  enters := rfl
  beyond _ _ := rfl

theorem shrinks_handBack {stop : Stop} (done : plan.handBack stop = .ok next) :
    plan.Shrinks next := by
  cases stop with
  | destination job =>
      cases done
      exact ⟨rfl, fun _ => .inl rfl, fun _ => rfl, rfl, fun _ _ => rfl⟩
  | base b =>
      simp only [handBack, bind_eq_ok] at done
      rcases done with ⟨⟨wasOut, pool⟩, released, equal⟩
      cases equal
      refine ⟨rfl, fun c => ?_, fun _ => rfl, rfl, fun _ _ => rfl⟩
      cases free : plan.pool.isFree b with
      | true =>
          rw [BasePool.release, free, if_pos rfl] at released
          cases released
          exact .inl rfl
      | false =>
          obtain ⟨inside, _, rfl⟩ := (BasePool.release_eq_ok free).mp released
          by_cases same : b = c
          · subst same
            refine .inr ⟨free, ?_, ?_⟩
            · rw [BasePool.isFree_handedBack inside, if_pos rfl]
            · exact List.getElem?_modify_eq _ b _
          · exact .inl (List.getElem?_modify_ne _ _ same)

theorem shrinks_handBackAll {stops : List Stop} (done : stops.foldlM handBack plan = .ok next) :
    plan.Shrinks next :=
  foldlM_keeps plan.Shrinks (fun _ _ _ _ kept step => kept.trans (shrinks_handBack step))
    (.refl plan) done

theorem shrinks_removeJob {job : Nat} {from? : Option Nat}
    (done : plan.removeJob job = .ok (from?, next)) : plan.Shrinks next := by
  rcases removeJob_eq_ok.mp done with ⟨_, _, rfl⟩ | ⟨_, _, _, _, _, _, _, removed, _⟩
  · exact .refl next
  · obtain ⟨route, found, _, handed⟩ := removeStop_eq_ok.mp removed
    refine Shrinks.trans (shrinks_setRoute found ?_) (shrinks_handBack handed)
    rfl

theorem shrinks_removeJobs {given : List Nat} {removed : List (Nat × Nat)}
    (done : plan.removeJobs given = .ok (removed, next)) : plan.Shrinks next :=
  removeJobs_keeps plan.Shrinks (fun _ _ _ _ kept step => kept.trans (shrinks_removeJob step))
    (.refl plan) done

theorem shrinks_clearIdleBases {count : Nat} (done : plan.clearIdleBases r = .ok (count, next)) :
    plan.Shrinks next := by
  obtain ⟨route, found, _, handed⟩ := clearIdleBases_eq_ok.mp done
  refine Shrinks.trans (shrinks_setRoute found ?_) (shrinks_handBackAll handed)
  rfl

end

section

variable {p : Problem α} {plan middle next last : Plan α} {r jobs bases : Nat} {route now : Route}

theorem shrinks_refreshRoute (entered : r < plan.ledger.routes.length)
    (done : plan.refreshRoute p r = .ok next) : plan.Shrinks next := by
  obtain ⟨route, fresh, entry, found, rescheduled, _, rfl⟩ := refreshRoute_eq_ok done
  obtain ⟨departure, _⟩ := Route.reschedule_again rescheduled
  obtain ⟨vehicle, _⟩ := Route.reschedule_eq_ok rescheduled
  have crew : fresh.crew = route.crew := by rw [Route.crew, Route.crew, vehicle, departure]
  constructor
  case crews => exact (shrinks_setRoute found crew).crews
  case entries => exact fun _ => .inl rfl
  case marks =>
    intro i
    by_cases same : r = i
    · subst same
      rw [Ledger.entry_modifyEntry_self]
    · rw [Ledger.entry_modifyEntry_of_ne _ same]
  case enters =>
    have long : r + 1 - plan.ledger.routes.length = 0 := by omega
    simp [Ledger.modifyEntry, List.rightpad, long]
  case beyond =>
    intro i beyond
    have inside := (List.getElem?_eq_some_iff.mp found).1
    exact Ledger.entry_modifyEntry_of_ne _ (Nat.ne_of_lt (inside.trans_le beyond)) _

theorem shrinks_repairRoute (enters : plan.routes.length ≤ plan.ledger.routes.length)
    (done : plan.repairRoute p r = .ok next) : plan.Shrinks next := by
  simp only [repairRoute, bind_eq_ok] at done
  obtain ⟨⟨count, cleared⟩, tidied, refreshed⟩ := done
  have shrinks := shrinks_clearIdleBases tidied
  obtain ⟨route, _, _, found, _⟩ := refreshRoute_eq_ok refreshed
  have inside := (List.getElem?_eq_some_iff.mp found).1
  refine shrinks.trans (shrinks_refreshRoute ?_ refreshed)
  rw [shrinks.enters]
  exact (shrinks.length_eq ▸ inside).trans_le enters

theorem shrinks_repairRoutes {routes : List Nat}
    (enters : plan.routes.length ≤ plan.ledger.routes.length)
    (done : routes.foldlM (repairRoute p) plan = .ok next) : plan.Shrinks next := by
  refine foldlM_keeps plan.Shrinks (fun _ _ before after kept step => ?_) (.refl plan) done
  refine kept.trans (shrinks_repairRoute ?_ step)
  rw [kept.length_eq, kept.enters]
  exact enters

theorem shrinks_ruin {given listed : List Nat}
    (enters : plan.routes.length ≤ plan.ledger.routes.length)
    (done : plan.ruin p given = .ok (listed, next)) : plan.Shrinks next := by
  simp only [ruin, bind_eq_ok] at done
  obtain ⟨⟨removed, shorter⟩, taken, last, repaired, equal⟩ := done
  cases equal
  have shrinks := shrinks_removeJobs taken
  refine shrinks.trans (shrinks_repairRoutes ?_ repaired)
  rw [shrinks.length_eq, shrinks.enters]
  exact enters

/-- The ledger has an entry for every route that is up to date. -/
theorem UpToDate.enters (upToDate : plan.UpToDate p) :
    plan.routes.length ≤ plan.ledger.routes.length := by
  by_contra fewer
  obtain ⟨_, current⟩ := upToDate plan.ledger.routes.length (Nat.lt_of_not_le fewer)
  exact Nat.lt_irrefl _ current.entered

/-! ### What follows from the stops -/

omit [Quantity α] in
/-- Plans that came from the same plan, and in which a route visits the same stops, agree on its
vehicle, its departure and its bases. -/
theorem Shrinks.agree (first : plan.Shrinks middle) (second : plan.Shrinks last)
    (conserved : Conserved jobs bases middle) (conservedLast : Conserved jobs bases last)
    (same : last.itineraries[r]? = middle.itineraries[r]?) (found : middle.routes[r]? = some route)
    (there : last.routes[r]? = some now) :
    now.vehicle = route.vehicle ∧ now.fixedDeparture = route.fixedDeparture ∧
      now.stops = route.stops ∧
      ∀ b, .base b ∈ route.stops → last.pool.base b = middle.pool.base b := by
  have crews : last.routes.map Route.crew = middle.routes.map Route.crew :=
    second.crews.trans first.crews.symm
  have crew : some now.crew = some route.crew := by
    rw [← Option.map_some, ← there, ← List.getElem?_map, crews, List.getElem?_map, found,
      Option.map_some]
  rw [itineraries_of_route there, itineraries_of_route found, Option.some.injEq,
    Prod.mk.injEq] at same
  obtain ⟨vehicle, stops⟩ := same
  refine ⟨vehicle, congrArg Prod.snd (Option.some.inj crew), stops, fun b member => ?_⟩
  have taken := conserved.taken_of_visits (visits_of_route found) member
  have takenLast := conservedLast.taken_of_visits (visits_of_route there) (stops ▸ member)
  exact (second.base_eq takenLast).trans (first.base_eq taken).symm

/-- A route can be refreshed where it visits the stops that it visits in a plan in which it is up to
date. -/
theorem Shrinks.refreshRoute_answers (first : plan.Shrinks middle) (second : plan.Shrinks last)
    (conserved : Conserved jobs bases middle) (conservedLast : Conserved jobs bases last)
    (same : last.itineraries[r]? = middle.itineraries[r]?) (found : middle.routes[r]? = some route)
    (current : last.Current p r now) : ∃ next, middle.refreshRoute p r = .ok next := by
  obtain ⟨vehicle, departure, stops, kept⟩ :=
    first.agree second conserved conservedLast same found current.found
  have keptNow : ∀ b, .base b ∈ now.stops → last.pool.base b = middle.pool.base b := stops ▸ kept
  have times : route.reschedule p middle.pool = .ok now := by
    rw [← Route.reschedule_eq_of_same vehicle departure stops, ← Route.reschedule_congr keptNow]
    exact current.times
  obtain ⟨entry, derived, _⟩ := current.derived
  rw [RouteEntry.derive_congr keptNow] at derived
  have refreshed : middle.refreshRoute p r = .ok { middle.setRoute r now with
      ledger := middle.ledger.modifyEntry r fun old =>
        { entry with needsBase := old.needsBase } } := by
    simp only [refreshRoute, Ledger.refresh, bind_eq_ok, route_eq_ok]
    exact ⟨route, found, now, times, _, ⟨entry, derived, rfl⟩, rfl⟩
  exact ⟨_, refreshed⟩

/-- Times and ledger follow from the stops, so they agree where the stops do. -/
theorem Shrinks.route_eq (first : plan.Shrinks middle) (second : plan.Shrinks last)
    (conserved : Conserved jobs bases middle) (conservedLast : Conserved jobs bases last)
    (same : last.itineraries[r]? = middle.itineraries[r]?) (current : middle.Current p r route)
    (currentLast : last.Current p r now) :
    now = route ∧ last.ledger.entry r = middle.ledger.entry r := by
  obtain ⟨vehicle, departure, stops, kept⟩ :=
    first.agree second conserved conservedLast same current.found currentLast.found
  have equal : now = route := by
    have times := currentLast.times
    rw [Route.reschedule_eq_of_same vehicle departure stops, Route.reschedule_congr kept,
      current.times] at times
    exact (Except.ok.inj times).symm
  subst equal
  obtain ⟨entry, derived, entered⟩ := current.derived
  obtain ⟨entryLast, derivedLast, enteredLast⟩ := currentLast.derived
  rw [RouteEntry.derive_congr kept, derived] at derivedLast
  cases derivedLast
  refine ⟨rfl, ?_⟩
  rw [← entered, ← enteredLast, first.marks, second.marks]

end

/-! ### Plans that have lost jobs -/

/-- A plan that has lost some jobs.  In which order they are named does not occur. -/
structure Loses (p : Problem α) (jobs bases : Nat) (given : List Nat) (plan next : Plan α) : Prop
    extends plan.Shrinks next where
  conserved : Conserved jobs bases next
  upToDate : next.UpToDate p
  ascending : next.Ascending
  itineraries : next.itineraries = plan.itinerariesLeft given

section

variable {p : Problem α} {plan middle next last : Plan α} {r jobs bases : Nat} {given : List Nat}

omit [Quantity α] in
/-- What waits follows from what is routed. -/
theorem Holding.waiting_eq (conserved : Conserved jobs bases middle)
    (conservedLast : Conserved jobs bases last) (same : last.itineraries = middle.itineraries)
    (stop : Stop) : last.waiting stop = middle.waiting stop := by
  have tally := conserved.once stop
  have tallyLast := conservedLast.once stop
  rw [Plan.tally, routed] at tally tallyLast
  rw [same] at tallyLast
  omega

omit [Quantity α] in
theorem Shrinks.pool_eq (first : plan.Shrinks middle) (second : plan.Shrinks last)
    (free : ∀ b, last.pool.isFree b = middle.pool.isFree b) : last.pool = middle.pool := by
  have entries : last.pool.entries = middle.pool.entries := by
    apply List.ext_getElem?
    intro b
    rcases first.entries b with same | ⟨taken, now, cleared⟩
    · rcases second.entries b with sameLast | ⟨taken, now, _⟩
      · exact sameLast.trans same.symm
      · rw [free, BasePool.isFree_congr same, taken] at now
        cases now
    · rcases second.entries b with sameLast | ⟨_, _, clearedLast⟩
      · rw [← free, BasePool.isFree_congr sameLast, taken] at now
        cases now
      · exact clearedLast.trans cleared.symm
  exact congrArg BasePool.mk entries

/-- Nothing else is left than one plan. -/
theorem Loses.unique (first : Loses p jobs bases given plan middle)
    (second : Loses p jobs bases given plan last) : last = middle := by
  have itineraries : last.itineraries = middle.itineraries :=
    second.itineraries.trans first.itineraries.symm
  have waiting := Holding.waiting_eq first.conserved second.conserved itineraries
  have current {r : Nat} (inside : r < plan.routes.length) :
      ∃ route, middle.Current p r route ∧ last.Current p r route ∧
        last.ledger.entry r = middle.ledger.entry r := by
    obtain ⟨route, own⟩ := first.upToDate r (by rwa [first.length_eq])
    obtain ⟨now, ownLast⟩ := second.upToDate r (by rwa [second.length_eq])
    obtain ⟨rfl, entry⟩ := first.route_eq second.toShrinks first.conserved second.conserved
      (congrArg (·[r]?) itineraries) own ownLast
    exact ⟨now, own, ownLast, entry⟩
  have routes : last.routes = middle.routes := by
    apply List.ext_getElem?
    intro r
    by_cases inside : r < plan.routes.length
    · obtain ⟨route, own, ownLast, _⟩ := current inside
      rw [own.found, ownLast.found]
    · rw [List.getElem?_eq_none (by rw [second.length_eq]; omega),
        List.getElem?_eq_none (by rw [first.length_eq]; omega)]
  have pool : last.pool = middle.pool := by
    apply first.pool_eq second.toShrinks
    intro b
    rw [Bool.eq_iff_iff, ← Bool.toNat_eq_one, ← Bool.toNat_eq_one]
    exact iff_of_eq (congrArg (· = 1) (waiting (.base b)))
  have entries (r : Nat) : last.ledger.entry r = middle.ledger.entry r := by
    by_cases inside : r < plan.routes.length
    · obtain ⟨_, _, _, entry⟩ := current inside
      exact entry
    · rw [second.beyond r (by omega), first.beyond r (by omega)]
  have ledger : last.ledger = middle.ledger := Ledger.eq_of_entries
    (second.enters.trans first.enters.symm) entries
  have unassigned : last.unassigned = middle.unassigned := by
    apply List.Pairwise.eq_of_mem_iff second.ascending first.ascending
    intro job
    rw [← List.count_pos_iff, ← List.count_pos_iff]
    exact iff_of_eq (congrArg (0 < ·) (waiting (.destination job)))
  rcases last with ⟨_, _, _, _⟩
  rcases middle with ⟨_, _, _, _⟩
  cases routes
  cases pool
  cases ledger
  cases unassigned
  rfl

/-- On the way to a plan that has lost jobs, every route can be repaired. -/
theorem Loses.repairRoutes_answers {routes : List Nat} (loses : Loses p jobs bases given plan last)
    (enters : plan.routes.length ≤ plan.ledger.routes.length) (shrinks : plan.Shrinks middle)
    (conserved : Conserved jobs bases middle) (distinct : routes.Nodup)
    (ends : ∀ r ∈ routes, ∃ vehicle stops, middle.itineraries[r]? = some (vehicle, stops) ∧
      last.itineraries[r]? = some (vehicle, (splitIdleBases true stops).1)) :
    ∃ next, routes.foldlM (repairRoute p) middle = .ok next := by
  induction routes generalizing middle with
  | nil => exact ⟨middle, rfl⟩
  | cons r routes inductionHypothesis =>
      obtain ⟨absent, others⟩ := List.nodup_cons.mp distinct
      obtain ⟨vehicle, stops, here, there⟩ := ends r List.mem_cons_self
      obtain ⟨route, found, rfl, rfl⟩ := itineraries_eq_some.mp here
      obtain ⟨count, cleared, tidied⟩ := conserved.clearIdleBases_answers found
      have tidy : cleared.itineraries[r]? =
          some (route.vehicle, (splitIdleBases true route.stops).1) := by
        obtain ⟨_, _, hereAgain, changed, _⟩ := clearIdleBases_changes conserved tidied
        cases here.symm.trans hereAgain
        rw [changed, List.getElem?_set_self (List.getElem?_eq_some_iff.mp here).1]
      obtain ⟨_, foundNow, _⟩ := itineraries_eq_some.mp tidy
      obtain ⟨_, foundLast, _⟩ := itineraries_eq_some.mp there
      obtain ⟨_, current⟩ := loses.upToDate r (List.getElem?_eq_some_iff.mp foundLast).1
      obtain ⟨repaired, refreshed⟩ :=
        (shrinks.trans (shrinks_clearIdleBases tidied)).refreshRoute_answers loses.toShrinks
          (Holding.clearIdleBases conserved tidied) loses.conserved (there.trans tidy.symm)
          foundNow current
      have head : middle.repairRoute p r = .ok repaired := by
        simp only [repairRoute, bind_eq_ok]
        exact ⟨(count, cleared), tidied, refreshed⟩
      have shrunk : plan.Shrinks repaired := by
        refine shrinks.trans (shrinks_repairRoute ?_ head)
        rw [shrinks.length_eq, shrinks.enters]
        exact enters
      obtain ⟨next, tail⟩ := inductionHypothesis shrunk (repairRoute_conserves conserved head)
        others fun i among => by
          obtain ⟨vehicle, stops, here, there⟩ := ends i (List.mem_cons_of_mem r among)
          obtain ⟨_, _, _, _, changes, _⟩ := repairRoute_changes conserved head
          have apart : r ≠ i := fun same => absent (same ▸ among)
          exact ⟨vehicle, stops, (changes.others apart).trans here, there⟩
      refine ⟨next, ?_⟩
      rw [List.foldlM_cons, bind_eq_ok]
      exact ⟨repaired, head, tail⟩

/-! ### Removals -/

/-- What a removal leaves. -/
theorem loses_of_ruin {listed : List Nat} (conserved : Conserved jobs bases plan)
    (upToDate : plan.UpToDate p) (ascending : plan.Ascending)
    (done : plan.ruin p given = .ok (listed, next)) : Loses p jobs bases given plan next where
  toShrinks := shrinks_ruin upToDate.enters done
  conserved := ruin_conserves conserved done
  upToDate := (ruin_fresh ⟨conserved.orderly, upToDate⟩ done).upToDate
  ascending := ascending.ruin done
  itineraries := ruin_itineraries conserved done

/-- A removal ends well if there is a plan that has lost the jobs. -/
theorem Loses.ruin_answers (conserved : Conserved jobs bases plan) (upToDate : plan.UpToDate p)
    (loses : Loses p jobs bases given plan last) :
    ∃ listed next, plan.ruin p given = .ok (listed, next) := by
  obtain ⟨removed, shorter, taken⟩ := removeJobs_answers plan given
  have repairs : ∃ next, (shorter.routeIds.filter fun r => removed.any (·.2 = r)).foldlM
      (repairRoute p) shorter = .ok next := by
    apply loses.repairRoutes_answers upToDate.enters (shrinks_removeJobs taken)
      (removeJobs_conserves conserved taken) (List.nodup_range.filter _)
    intro r touched
    have inside : r < plan.routes.length := by
      rw [← (shrinks_removeJobs taken).length_eq]
      exact List.mem_range.mp (List.mem_filter.mp touched).1
    have found := itineraries_of_route (List.getElem?_eq_getElem inside)
    obtain ⟨between, serves⟩ := removeJobs_touches conserved taken found
    obtain ⟨job, named, member⟩ := serves.mp touched
    refine ⟨_, _, between, ?_⟩
    rw [loses.itineraries, getElem?_itinerariesLeft given found, leftOf_of_present named member]
  obtain ⟨next, repaired⟩ := repairs
  have done : plan.ruin p given = .ok (removed.map (·.1), next) := by
    simp only [ruin, bind_eq_ok]
    exact ⟨(removed, shorter), taken, next, repaired, rfl⟩
  exact ⟨_, next, done⟩

/-- The removal of some jobs from a plan leaves another one, whichever jobs it lists. -/
def RuinsTo (plan : Plan α) (p : Problem α) (given : List Nat) (next : Plan α) : Prop :=
  ∃ listed, plan.ruin p given = .ok (listed, next)

/-- A removal leaves the one plan that has lost the jobs. -/
theorem ruinsTo_iff_loses (conserved : Conserved jobs bases plan) (upToDate : plan.UpToDate p)
    (ascending : plan.Ascending) :
    plan.RuinsTo p given next ↔ Loses p jobs bases given plan next := by
  constructor
  · rintro ⟨listed, done⟩
    exact loses_of_ruin conserved upToDate ascending done
  · intro loses
    obtain ⟨listed, last, done⟩ := loses.ruin_answers conserved upToDate
    have same := loses.unique (loses_of_ruin conserved upToDate ascending done)
    exact ⟨listed, same ▸ done⟩

/-! ### In two steps -/

omit [Quantity α] in
/-- A base that is not free is somewhere. -/
theorem Holding.exists_visits {b : Nat} (conserved : Conserved jobs bases plan)
    (inside : b < plan.pool.size) (taken : plan.pool.isFree b = false) :
    ∃ r stops, plan.Visits r stops ∧ .base b ∈ stops := by
  have tally := conserved.once (.base b)
  rw [conserved.size_eq] at inside
  rw [Plan.tally, waiting, taken, routed_eq_count, knows, decide_eq_true inside, Bool.toNat_false,
    Bool.toNat_true, List.count_nil] at tally
  exact mem_allStops.mp (List.count_pos_iff.mp (by omega))

omit [Quantity α] in
theorem itinerariesLeft_of_eq {second : List Nat}
    (left : middle.itineraries = plan.itinerariesLeft given) :
    middle.itinerariesLeft second = plan.itinerariesLeft (given ++ second) := by
  rw [itinerariesLeft, left, itinerariesLeft, itinerariesLeft, List.map_map]
  apply List.map_congr_left
  intro itinerary _
  exact congrArg (Prod.mk itinerary.1) (leftOf_append given second itinerary.2)

omit [Quantity α] in
/-- A base that is not free after a removal was not free before. -/
theorem Holding.taken_of_left {b : Nat} (conserved : Conserved jobs bases plan)
    (conservedNext : Conserved jobs bases next)
    (left : next.itineraries = plan.itinerariesLeft given) (inside : b < next.pool.size)
    (taken : next.pool.isFree b = false) :
    plan.pool.isFree b = false := by
  obtain ⟨r, stops, ⟨vehicle, found⟩, member⟩ := conservedNext.exists_visits inside taken
  rw [left, itinerariesLeft, List.getElem?_map, Option.map_eq_some_iff] at found
  obtain ⟨itinerary, before, equal⟩ := found
  cases equal
  exact conserved.taken_of_visits ⟨_, before⟩ ((leftOf_sublist given itinerary.2).subset member)

omit [Quantity α] in
/-- Of two plans that came from the same plan, the one that visits less came from the other. -/
theorem Shrinks.between (first : plan.Shrinks middle) (whole : plan.Shrinks next)
    (conserved : Conserved jobs bases middle) (conservedNext : Conserved jobs bases next)
    (left : next.itineraries = middle.itinerariesLeft given) : middle.Shrinks next where
  crews := whole.crews.trans first.crews.symm
  entries b := by
    rcases first.entries b with same | ⟨taken, free, cleared⟩
    · rcases whole.entries b with sameNext | ⟨takenNext, freeNext, clearedNext⟩
      · exact .inl (sameNext.trans same.symm)
      · rw [← BasePool.isFree_congr same] at takenNext
        rw [← same] at clearedNext
        exact .inr ⟨takenNext, freeNext, clearedNext⟩
    · rcases whole.entries b with sameNext | ⟨_, _, clearedNext⟩
      · -- The base would be free in between, and in a route again at the end.
        have inside : b < next.pool.size := by
          obtain ⟨_, there, _⟩ := BasePool.isFree_eq_true.mp free
          rw [conservedNext.size_eq, ← conserved.size_eq]
          exact (List.getElem?_eq_some_iff.mp there).1
        have takenNow := conserved.taken_of_left conservedNext left inside
          ((BasePool.isFree_congr sameNext).trans taken)
        rw [free] at takenNow
        cases takenNow
      · exact .inl (clearedNext.trans cleared.symm)
  marks r := (whole.marks r).trans (first.marks r).symm
  enters := whole.enters.trans first.enters.symm
  beyond r beyond := by
    rw [first.length_eq] at beyond
    exact (whole.beyond r beyond).trans (first.beyond r beyond).symm

theorem Loses.trans {second : List Nat} (first : Loses p jobs bases given plan middle)
    (later : Loses p jobs bases second middle next) :
    Loses p jobs bases (given ++ second) plan next where
  toShrinks := first.toShrinks.trans later.toShrinks
  conserved := later.conserved
  upToDate := later.upToDate
  ascending := later.ascending
  itineraries := later.itineraries.trans (itinerariesLeft_of_eq first.itineraries)

/-- A plan that has lost more jobs is what a plan that has lost some of them can still become. -/
theorem Loses.between {second : List Nat} (first : Loses p jobs bases given plan middle)
    (whole : Loses p jobs bases (given ++ second) plan next) :
    Loses p jobs bases second middle next := by
  have left := whole.itineraries.trans (itinerariesLeft_of_eq first.itineraries).symm
  exact ⟨first.toShrinks.between whole.toShrinks first.conserved whole.conserved left,
    whole.conserved, whole.upToDate, whole.ascending, left⟩

/-! ### What a removal lists and what it keeps -/

omit [Quantity α] in
/-- The removal of a job finds out whether it was served. -/
theorem removeJob_serves {job : Nat} {from? : Option Nat} (conserved : Conserved jobs bases plan)
    (done : plan.removeJob job = .ok (from?, next)) :
    (from?.isSome = true ↔ .destination job ∈ plan.allStops) ∧
      ∀ other, .destination other ∈ next.allStops ↔
        .destination other ∈ plan.allStops ∧ other ≠ job := by
  obtain ⟨itineraries, serves⟩ := removeJob_itineraries conserved done
  constructor
  · rw [Option.isSome_iff_exists, mem_allStops]
    constructor
    · rintro ⟨r, rfl⟩
      rcases removeJob_eq_ok.mp done with ⟨_, none, _⟩ | ⟨_, route, _, _, _, found, _, _, equal⟩
      · cases none
      · cases equal
        have visits := visits_of_route found
        exact ⟨r, route.stops, visits, (serves r route.stops visits).mp rfl⟩
    · rintro ⟨r, stops, visits, member⟩
      exact ⟨r, (serves r stops visits).mpr member⟩
  · intro other
    have left : next.allStops = plan.allStops.filter (Stop.isOutside [job]) := by
      rw [allStops, allStops, itineraries, itinerariesWithout, List.flatMap_map,
        List.filter_flatMap]
    rw [left, List.mem_filter, isOutside_destination, List.mem_singleton]

omit [Quantity α] in
/-- The jobs that were served are listed once each, in the order in which they are named first. -/
theorem removeJobs_listed {removed : List (Nat × Nat)} (conserved : Conserved jobs bases plan)
    (done : plan.removeJobs given = .ok (removed, next)) :
    removed.map (·.1) =
      given.eraseDups.filter fun job => decide (.destination job ∈ plan.allStops) := by
  induction given generalizing plan next removed with
  | nil =>
      cases done
      rfl
  | cons job given inductionHypothesis =>
      simp only [removeJobs, bind_eq_ok] at done
      rcases done with ⟨⟨from?, shorter⟩, first, ⟨others, last⟩, later, equal⟩
      obtain ⟨served, serves⟩ := removeJob_serves conserved first
      have tail : others.map (·.1) = (given.filter fun other => !other == job).eraseDups.filter
          fun other => decide (.destination other ∈ plan.allStops) := by
        rw [inductionHypothesis (Holding.removeJob conserved first) later, eraseDups_filter,
          List.filter_filter]
        apply List.filter_congr
        intro other _
        rw [Bool.eq_iff_iff]
        simp [serves]
      rw [List.eraseDups_cons, List.filter_cons]
      cases from? with
      | none =>
          cases equal
          rw [if_neg (by simpa using served), tail]
      | some r =>
          cases equal
          rw [if_pos (by simpa using served), List.map_cons, tail]

/-- What a removal keeps of a route.  The other jobs stay in their order, each on a trip that is
closed by the same base as before, or by none as before.  A route that served none of the jobs is
the same. -/
structure KeepsOthers (given : List Nat) (r : Nat) (plan next : Plan α) (route now : Route) :
    Prop where
  jobs : jobsIn now.stops = (jobsIn route.stops).filter (· ∉ given)
  closes : ∀ job ∈ jobsIn now.stops, closingBase? job now.stops = closingBase? job route.stops
  bases : ∀ job ∈ jobsIn now.stops, ∀ b, closingBase? job now.stops = some b →
    next.pool.base b = plan.pool.base b
  same : (∀ job ∈ given, .destination job ∉ route.stops) → SameRoute r plan next

theorem Loses.keepsOthers {route : Route} (conserved : Conserved jobs bases plan)
    (upToDate : plan.UpToDate p) (loses : Loses p jobs bases given plan next)
    (found : plan.routes[r]? = some route) :
    ∃ now, next.routes[r]? = some now ∧ KeepsOthers given r plan next route now := by
  have left := getElem?_itinerariesLeft given (itineraries_of_route found)
  rw [← loses.itineraries] at left
  obtain ⟨now, there, _, stops⟩ := itineraries_eq_some.mp left
  have jobs : jobsIn now.stops = (jobsIn route.stops).filter (· ∉ given) := by
    rw [stops, jobsIn_leftOf]
  refine ⟨now, there, ⟨jobs, ?_, ?_, ?_⟩⟩
  · intro job member
    rw [jobs, List.mem_filter, decide_eq_true_eq] at member
    rw [stops, closingBase?_leftOf member.2]
  · intro job _ b closes
    have member := mem_of_closingBase? closes
    have taken := loses.conserved.taken_of_visits (visits_of_route there) member
    exact loses.base_eq taken
  · intro absent
    have same : next.itineraries[r]? = plan.itineraries[r]? := by
      rw [left, leftOf_of_absent absent, itineraries_of_route found]
    obtain ⟨_, current⟩ := upToDate r (List.getElem?_eq_some_iff.mp found).1
    obtain ⟨_, currentNow⟩ := loses.upToDate r (List.getElem?_eq_some_iff.mp there).1
    obtain ⟨rfl, entry⟩ := (Shrinks.refl plan).route_eq loses.toShrinks conserved loses.conserved
      same current currentNow
    have bases : ∀ visited b, plan.Visits r visited → .base b ∈ visited →
        next.pool.base b = plan.pool.base b := by
      intro visited b visits member
      cases visits.unique (visits_of_route current.found)
      have taken := loses.conserved.taken_of_visits (visits_of_route currentNow.found) member
      exact loses.base_eq taken
    exact ⟨currentNow.found.trans current.found.symm, bases, entry, Nat.le_of_eq loses.enters.symm⟩

end

end Plan

/-- In a plan that loses no stop, and that a refresh of all routes leaves alone, a removal depends
only on which jobs are named.  They may be named in any order and more than once, and they may go in
two steps.  Where the plan is within its problem, a removal fails only in a way that is excused.
The jobs that were served are listed once each, in the order in which they are named first.  All
other jobs stay on their routes, in their order and on trips that the same bases close. -/
theorem ruin_together {p : Problem α} {plan : Plan α} {jobs bases : Nat}
    (conserved : Conserved jobs bases plan) (fresh : plan.refreshRoutes p = .ok plan)
    (ascending : plan.Ascending) :
    (∀ given other, (∀ job, job ∈ given ↔ job ∈ other) →
      ∀ next, plan.RuinsTo p given next ↔ plan.RuinsTo p other next) ∧
    (∀ first second middle, plan.RuinsTo p first middle →
      ∀ next, middle.RuinsTo p second next ↔ plan.RuinsTo p (first ++ second) next) ∧
    (p.Linked → plan.InRange p bases → ∀ given e, plan.ruin p given = .error e → p.Excuses e) ∧
    ∀ given listed next, plan.ruin p given = .ok (listed, next) →
      listed = given.eraseDups.filter (fun job => decide (.destination job ∈ plan.allStops)) ∧
      next.routes.length = plan.routes.length ∧
      ∀ r route, plan.routes[r]? = some route →
        ∃ now, next.routes[r]? = some now ∧ KeepsOthers given r plan next route now := by
  have upToDate := refreshRoutes_eq_self.mp fresh
  refine ⟨?_, ?_, fun linked inRange given => (inRange.ruin linked given).fails, ?_⟩
  · intro given other same next
    have left : plan.itinerariesLeft given = plan.itinerariesLeft other := by
      rw [itinerariesLeft, itinerariesLeft, leftOf_congr same]
    rw [ruinsTo_iff_loses conserved upToDate ascending,
      ruinsTo_iff_loses conserved upToDate ascending]
    exact ⟨fun loses => { loses with itineraries := loses.itineraries.trans left },
      fun loses => { loses with itineraries := loses.itineraries.trans left.symm }⟩
  · intro first second middle ruins next
    have loses := (ruinsTo_iff_loses conserved upToDate ascending).mp ruins
    rw [ruinsTo_iff_loses conserved upToDate ascending,
      ruinsTo_iff_loses loses.conserved loses.upToDate loses.ascending]
    exact ⟨loses.trans, loses.between⟩
  · intro given listed next done
    have loses := loses_of_ruin conserved upToDate ascending done
    refine ⟨?_, loses.length_eq, fun r route found => loses.keepsOthers conserved upToDate found⟩
    simp only [ruin, bind_eq_ok] at done
    obtain ⟨⟨removed, shorter⟩, taken, last, _, equal⟩ := done
    cases equal
    exact removeJobs_listed conserved taken

/-- Both jobs are taken out one after the other, or together and named in another order. -/
theorem ruin_together_twoJobs :
    ∃ plan middle next,
      Plan.reach twoJobs [.recreate (.forProblem twoJobs .standard)] = .ok plan ∧
      plan.itineraries = [(0, [.destination 0, .base 0, .destination 1, .base 1])] ∧
      plan.refreshRoutes twoJobs = .ok plan ∧ plan.ruin twoJobs [0] = .ok ([0], middle) ∧
      middle.itineraries = [(0, [.destination 1, .base 1])] ∧
      middle.ruin twoJobs [1] = .ok ([1], next) ∧
      plan.ruin twoJobs [1, 0, 1] = .ok ([1, 0], next) := by
  have run : (do
      let plan ← Plan.reach twoJobs [.recreate (.forProblem twoJobs .standard)]
      let fresh ← plan.refreshRoutes twoJobs
      let (first, middle) ← plan.ruin twoJobs [0]
      let (second, _) ← middle.ruin twoJobs [1]
      .ok (decide (fresh = plan ∧ first = [0] ∧ second = [1]),
        [plan.itineraries, middle.itineraries])) =
      Except.ok (true, [[(0, [.destination 0, .base 0, .destination 1, .base 1])],
        [(0, [.destination 1, .base 1])]]) := by
    decide +kernel
  simp only [bind_eq_ok] at run
  rcases run with ⟨plan, reached, fresh, refreshed, ⟨first, middle⟩, taken, ⟨second, next⟩, later,
    equal⟩
  simp only [Except.ok.injEq, Prod.mk.injEq, decide_eq_true_eq, List.cons.injEq, and_true] at equal
  rcases equal with ⟨⟨rfl, rfl, rfl⟩, itineraries, left⟩
  obtain ⟨order, steps, _, lists⟩ :=
    ruin_together (reach_conserves reached) refreshed (reach_ascending reached)
  have both : fresh.RuinsTo twoJobs ([0] ++ [1]) next :=
    (steps [0] [1] middle ⟨_, taken⟩ next).mp ⟨_, later⟩
  have reordered : fresh.RuinsTo twoJobs [1, 0, 1] next :=
    (order ([0] ++ [1]) [1, 0, 1] (by simp) next).mp both
  obtain ⟨listed, done⟩ := reordered
  have served : listed = [1, 0] := by
    rw [(lists [1, 0, 1] listed next done).1, allStops, itineraries]
    decide
  rw [served] at done
  exact ⟨fresh, middle, next, reached, itineraries, refreshed, taken, left, later, done⟩

end Haulage

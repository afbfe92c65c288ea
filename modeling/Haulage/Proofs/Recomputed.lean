/-
Module: Haulage.Proofs.Recomputed
Purpose: What the ledger holds about the trips of a route after a refresh follows from the stops of
  the route alone, whatever it held before.
Main exports: futureMaxLoads_at, Ledger.Recomputed, Ledger.refresh_congr, refresh_recomputes
-/
import Mathlib.Data.List.Induction
import Haulage.Proofs.Current
import Haulage.Proofs.Session

namespace Haulage

/-! ### The larger of two loads -/

namespace Load

/-- A load without negative amounts that is smaller nowhere and has no fewer dimensions is the larger
one. -/
theorem atLeast_eq_left {a b : Load Rat} (positive : ∀ i, 0 ≤ a.get i)
    (under : ∀ i, b.get i ≤ a.get i) (short : b.dimensions ≤ a.dimensions) : a.atLeast b = a := by
  apply ext_get
  · rw [dimensions_atLeast, Nat.max_eq_left short]
  · intro i
    rw [get_atLeast positive, max_eq_left (under i)]

/-- Over nothing a load without negative amounts is the larger one. -/
theorem empty_atLeast {a : Load Rat} (positive : ∀ i, 0 ≤ a.get i) : empty.atLeast a = a := by
  apply ext_get
  · rw [dimensions_atLeast, dimensions_empty, Nat.zero_max]
  · intro i
    rw [get_atLeast fun i => (get_empty i).ge, get_empty]
    exact max_eq_right (positive i)

end Load

/-! ### Demands of more and more jobs -/

section

variable {p : Problem Rat} {jobs more : List Nat}

/-- Some jobs take nothing away from a load. -/
def Problem.AddsUp (p : Problem Rat) (jobs : List Nat) : Prop :=
  ∀ job ∈ jobs, (p.demand job).isNegative = false

theorem Problem.AddsUp.get_nonneg (adds : p.AddsUp jobs) (i : Nat) : 0 ≤ (p.demandOf jobs).get i := by
  rw [get_demandOf]
  apply List.sum_nonneg
  intro amount member
  obtain ⟨job, served, rfl⟩ := List.mem_map.mp member
  exact Load.get_nonneg (adds job served) i

theorem Problem.AddsUp.get_le_append (adds : p.AddsUp more) (i : Nat) :
    (p.demandOf jobs).get i ≤ (p.demandOf (jobs ++ more)).get i := by
  have above := adds.get_nonneg i
  rw [get_demandOf] at above
  rw [get_demandOf, get_demandOf, List.map_append, List.sum_append]
  exact le_add_of_nonneg_right above

theorem Problem.dimensions_demandOf_append (p : Problem Rat) (jobs more : List Nat) :
    (p.demandOf jobs).dimensions ≤ (p.demandOf (jobs ++ more)).dimensions := by
  induction more using List.reverseRecOn with
  | nil => rw [List.append_nil]
  | append_singleton more job inductionHypothesis =>
      rw [← List.append_assoc, demandOf_append_singleton]
      apply inductionHypothesis.trans
      rw [Load.dimensions_add]
      exact Nat.le_max_left _ _

/-- With further jobs the demand is the larger one. -/
theorem Problem.AddsUp.atLeast_append (adds : p.AddsUp (jobs ++ more)) :
    (p.demandOf (jobs ++ more)).atLeast (p.demandOf jobs) = p.demandOf (jobs ++ more) := by
  have later : p.AddsUp more := fun job served => adds job (List.mem_append_right _ served)
  exact Load.atLeast_eq_left adds.get_nonneg later.get_le_append
    (p.dimensions_demandOf_append jobs more)

end

/-! ### The highest load from a stop on -/

section

variable {p : Problem Rat} {pool : BasePool} {known : Bool} {trips : List (TripEntry Rat)}
  {loads : List (Load Rat)}

/-- Where no demand is negative, the highest load from a destination on is that of its whole trip. -/
theorem head?_futureMaxLoads {job : Nat} {rest : List Stop} {served : List Nat}
    (adds : p.AddsUp (served ++ job :: jobsOfTrip rest 0))
    (done : tripsFrom p pool (p.demandOf served) known (.destination job :: rest) =
      .ok (trips, loads)) :
    (futureMaxLoads ((Stop.destination job :: rest).zip loads)).head? =
      some (p.demandOf (served ++ job :: jobsOfTrip rest 0)) := by
  induction rest generalizing job served known trips loads with
  | nil =>
      simp only [tripsFrom, bind_eq_ok] at done
      obtain ⟨d, found, _, behind, equal⟩ := done
      cases behind
      cases equal
      rw [← Problem.demand_eq found, ← Problem.demandOf_append_singleton]
      exact congrArg some (Load.empty_atLeast adds.get_nonneg)
  | cons stop rest inductionHypothesis =>
      rw [tripsFrom, bind_eq_ok] at done
      obtain ⟨d, found, done⟩ := done
      rw [bind_eq_ok] at done
      obtain ⟨⟨later, loadsLater⟩, behind, equal⟩ := done
      cases equal
      rw [← Problem.demand_eq found, ← Problem.demandOf_append_singleton] at behind ⊢
      cases stop with
      | base b =>
          cases loadsLater with
          | nil => exact congrArg some (Load.empty_atLeast adds.get_nonneg)
          | cons load loads => exact congrArg some (Load.empty_atLeast adds.get_nonneg)
      | destination next =>
          rw [jobsOfTrip_destination, if_pos rfl] at adds ⊢
          have further := List.append_cons served job (next :: jobsOfTrip rest 0)
          rw [further] at adds ⊢
          have highest := inductionHypothesis adds behind
          cases loadsLater with
          | nil => cases highest
          | cons load loads =>
              obtain ⟨others, followed⟩ := List.head?_eq_some_iff.mp highest
              rw [List.zip_cons_cons] at followed
              rw [List.zip_cons_cons, List.zip_cons_cons, futureMaxLoads.eq_def]
              simp only [followed]
              exact congrArg some adds.atLeast_append

theorem drop_futureMaxLoads (stops : List (Stop × Load Rat)) (i : Nat) :
    (futureMaxLoads stops).drop i = futureMaxLoads (stops.drop i) := by
  induction stops generalizing i with
  | nil =>
      rw [List.drop_nil]
      exact List.drop_nil
  | cons stop rest inductionHypothesis =>
      cases i with
      | zero => rfl
      | succ i =>
          obtain ⟨destination | base, load⟩ := stop
          · exact inductionHypothesis i
          · exact inductionHypothesis i

/-- Anywhere on a trip without negative demands, the highest load from there on is the load of the
trip. -/
theorem futureMaxLoads_at {before after : List Stop} {job : Nat}
    (adds : p.AddsUp (jobsOfTrip (before ++ .destination job :: after) (basesIn before)))
    (done : tripsFrom p pool .empty known (before ++ .destination job :: after) =
      .ok (trips, loads)) :
    (futureMaxLoads ((before ++ .destination job :: after).zip loads))[before.length]? =
      some (p.demandOf (jobsOfTrip (before ++ .destination job :: after) (basesIn before))) := by
  obtain ⟨_, _, behind⟩ := tripsFrom_append [] done
  rw [jobsOfTrip_append, jobsOfTrip_destination, if_pos rfl] at adds ⊢
  rw [← List.head?_drop, drop_futureMaxLoads, List.zip, List.drop_zipWith, List.drop_left]
  exact head?_futureMaxLoads adds behind

end

/-! ### Trips as they are entered -/

section

variable {α : Type} [Quantity α] (p : Problem α) (pool : BasePool) {stops : List Stop}

theorem length_tripEntries (stops : List Stop) :
    (tripEntries p pool (tripsOf [] stops)).length =
      basesIn stops + if openJobs stops = [] then 0 else 1 := by
  rw [tripEntries, ← closedTrips, ← openJobs, List.length_append, List.length_map,
    length_closedTrips]
  split <;> rfl

/-- The open trip is entered behind the closed ones. -/
theorem getElem?_tripEntries_open (serves : openJobs stops ≠ []) :
    (tripEntries p pool (tripsOf [] stops))[basesIn stops]? =
      some ⟨some (p.demandOf (openJobs stops)), none⟩ := by
  have behind : ((closedTrips stops).map fun t =>
      (⟨some (p.demandOf t.jobs), pool.locationOf t.base⟩ : TripEntry α)).length ≤
      basesIn stops := by simp
  rw [tripEntries, ← closedTrips, ← openJobs, if_neg serves, List.getElem?_append_right behind]
  simp

end

/-! ### The entry of a route -/

/-- What the ledger holds about the trips and stops of a route follows from the stops.  Each closed
trip has an entry, and so has the open one as soon as it serves a job; there are no others.  The
highest load from a job on is that of its trip, unless some demand on the trip is negative. -/
structure Ledger.Recomputed (p : Problem Rat) (pool : BasePool) (r : Nat) (stops : List Stop)
    (l : Ledger Rat) : Prop where
  tripCount_eq : l.tripCount? r = some (basesIn stops)
  closed_eq : ∀ (k : Nat) (t : Trip), (closedTrips stops)[k]? = some t →
    l.load? r k = some (p.demandOf t.jobs) ∧ l.unloadLocation? r k = pool.locationOf t.base
  open_eq : openJobs stops ≠ [] → l.load? r (basesIn stops) = some (p.demandOf (openJobs stops)) ∧
    l.unloadLocation? r (basesIn stops) = none
  trips_length : (l.entry r).trips.length = basesIn stops + if openJobs stops = [] then 0 else 1
  stop_eq : ∀ before stop after, stops = before ++ stop :: after →
    ∃ e, l.stop? r before.length = some e ∧
      e.load = p.demandOf (openJobs before ++ stop.job?.toList) ∧
      ∀ job, stop = .destination job → p.AddsUp (jobsOfTrip stops (basesIn before)) →
        e.futureMaxLoad = p.demandOf (jobsOfTrip stops (basesIn before))
  stops_length : (l.entry r).stops.length = stops.length

section

variable {p : Problem Rat} {pool : BasePool} {ledger after : Ledger Rat} {r : Nat} {route : Route}

theorem Ledger.refresh_eq_ok (done : ledger.refresh p pool r route = .ok after) :
    ∃ entry, RouteEntry.derive p pool route = .ok entry ∧
      after = ledger.modifyEntry r fun old => { entry with needsBase := old.needsBase } := by
  obtain ⟨entry, derived, equal⟩ := bind_eq_ok.mp done
  exact ⟨entry, derived, (Except.ok.inj equal).symm⟩

theorem Ledger.recomputed_of_refresh (done : ledger.refresh p pool r route = .ok after) :
    after.Recomputed p pool r route.stops := by
  obtain ⟨entry, derived, equal⟩ := refresh_eq_ok done
  obtain ⟨_, loads, _, made⟩ := RouteEntry.derive_eq_ok derived
  have trips := (tripsFrom_eq_ok [] made.derived).1
  have held : after.entry r = { entry with needsBase := (ledger.entry r).needsBase } := by
    rw [equal, entry_modifyEntry_self]
  constructor
  case tripCount_eq => rw [tripCount?, held, made.count_eq]
  case stops_length => rw [held, made.stops_length]
  case trips_length => rw [held, trips, length_tripEntries]
  case closed_eq =>
    intro k t closed
    rw [load?, unloadLocation?, trip, held, trips, getElem?_tripEntries closed]
    exact ⟨rfl, rfl⟩
  case open_eq =>
    intro serves
    rw [load?, unloadLocation?, trip, held, trips, getElem?_tripEntries_open p pool serves]
    exact ⟨rfl, rfl⟩
  case stop_eq =>
    intro front stop back split
    have inside : front.length < route.stops.length := by simp [split]
    obtain ⟨load, highest, _, _, here, most, _, _, entered⟩ := made.stop_at front.length inside
    have derived := made.derived
    rw [split] at derived most ⊢
    have noted : after.stop? r front.length = entry.stops[front.length]? := by rw [stop?, held]
    refine ⟨_, noted.trans entered, ?_, ?_⟩
    · exact Option.some.inj (here.symm.trans (tripsFrom_load [] derived))
    · rintro job rfl adds
      exact Option.some.inj (most.symm.trans (futureMaxLoads_at adds derived))

theorem Ledger.length_modifyEntry_eq (l : Ledger Rat) (f : RouteEntry Rat → RouteEntry Rat) :
    (l.modifyEntry r f).routes.length = max l.routes.length (r + 1) := by
  simp only [modifyEntry, List.rightpad, List.length_modify, List.length_append,
    List.length_replicate]
  omega

/-- Two ledgers that differ only in what they hold about the trips and stops of a route are the same
after a refresh of the route. -/
theorem Ledger.refresh_congr {twin : Ledger Rat}
    (others : ∀ o, o ≠ r → twin.routes[o]? = ledger.routes[o]?)
    (mark : twin.needsBase? r = ledger.needsBase? r) :
    twin.refresh p pool r route = ledger.refresh p pool r route := by
  have long {l m : Ledger Rat} (same : ∀ o, o ≠ r → l.routes[o]? = m.routes[o]?) :
      l.routes.length ≤ max m.routes.length (r + 1) := by
    by_contra longer
    have last := same (l.routes.length - 1) (by omega)
    rw [List.getElem?_eq_getElem (by omega), List.getElem?_eq_none (by omega)] at last
    cases last
  have same (entry : RouteEntry Rat) :
      (twin.modifyEntry r fun old => { entry with needsBase := old.needsBase }) =
        ledger.modifyEntry r fun old => { entry with needsBase := old.needsBase } := by
    apply eq_of_entries
    · rw [length_modifyEntry_eq, length_modifyEntry_eq]
      have shorter := long others
      have longer := long fun o apart => (others o apart).symm
      omega
    · intro o
      by_cases own : r = o
      · subst own
        rw [entry_modifyEntry_self, entry_modifyEntry_self]
        exact congrArg (fun mark => { entry with needsBase := mark }) mark
      · rw [entry_modifyEntry_of_ne _ own, entry_modifyEntry_of_ne _ own, Ledger.entry, Ledger.entry,
          others o (Ne.symm own)]
  rw [refresh, refresh]
  simp only [same]

end

/-- What a refresh enters about the trips and stops of a route follows from the route and from where
its bases lie.  It does not matter what the ledger held about them before.  Whether a new trip is
needed and what it holds about other routes stays as it was. -/
theorem refresh_recomputes {p : Problem Rat} {pool : BasePool} {ledger after : Ledger Rat} {r : Nat}
    {route : Route} (done : ledger.refresh p pool r route = .ok after) :
    after.Recomputed p pool r route.stops ∧ after.needsBase? r = ledger.needsBase? r ∧
      (∀ o, o ≠ r → after.entry o = ledger.entry o) ∧
      ∀ twin : Ledger Rat, (∀ o, o ≠ r → twin.routes[o]? = ledger.routes[o]?) →
        twin.needsBase? r = ledger.needsBase? r → twin.refresh p pool r route = .ok after := by
  refine ⟨Ledger.recomputed_of_refresh done, ?_, ?_, ?_⟩
  · obtain ⟨entry, _, rfl⟩ := Ledger.refresh_eq_ok done
    rw [Ledger.needsBase?, Ledger.entry_modifyEntry_self]
    rfl
  · obtain ⟨entry, _, rfl⟩ := Ledger.refresh_eq_ok done
    intro o apart
    exact Ledger.entry_modifyEntry_of_ne _ apart.symm _
  · intro twin others mark
    exact (Ledger.refresh_congr others mark).trans done

/-- A route of two closed trips is cut down to one job.  The entries of the trips are gone, and the job
is on the open trip. -/
theorem refresh_recomputes_twoJobs :
    ∃ (plan : Plan Rat) (short : Route) (after : Ledger Rat),
      plan.ledger.tripCount? 0 = some 2 ∧ plan.ledger.load? 0 0 = some ⟨[5]⟩ ∧
      short.stops = [.destination 1] ∧
      plan.ledger.refresh twoJobs plan.pool 0 short = .ok after ∧ after.tripCount? 0 = some 0 ∧
      after.load? 0 0 = some ⟨[10]⟩ ∧ after.unloadLocation? 0 0 = none ∧
      (after.entry 0).trips.length = 1 := by
  have run : (do
      let empty ← Plan.empty twoJobs
      let first ← empty.insertStop 0 0 (.destination 0)
      let closed ← first.insertStop 0 1 (.base 0)
      let placed ← closed.placeBase 0 3 .zero
      let second ← placed.insertStop 0 2 (.destination 1)
      let whole ← second.insertStop 0 3 (.base 1)
      let plan ← whole.refreshRoute twoJobs 0
      let route ← plan.route 0
      let short ← { route with stops := [.destination 1] }.reschedule twoJobs plan.pool
      let after ← plan.ledger.refresh twoJobs plan.pool 0 short
      .ok (plan.ledger.tripCount? 0, decide (plan.ledger.load? 0 0 = some ⟨[5]⟩), short.stops)) =
      Except.ok (some 2, true, [.destination 1]) := by
    decide +kernel
  simp only [bind_eq_ok, Except.ok.injEq, Prod.mk.injEq, decide_eq_true_eq] at run
  obtain ⟨_, _, _, _, _, _, _, _, _, _, _, _, plan, _, _, _, short, _, after, refreshed, count, load,
    stops⟩ := run
  obtain ⟨recomputed, _⟩ := refresh_recomputes refreshed
  rw [stops] at recomputed
  obtain ⟨loaded, unloads⟩ := recomputed.open_eq (by decide)
  exact ⟨plan, short, after, count, load, stops, refreshed, recomputed.tripCount_eq,
    loaded.trans (by decide +kernel), unloads, recomputed.trips_length⟩

end Haulage

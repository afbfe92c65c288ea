/-
Module: Haulage.Proofs.Reduced
Purpose: What the visit of a route takes out of it.  The visit is read as a relation between the
  states that it comes to.  Each step leaves the stops as they are or takes out one whole trip, so
  that the route ends up with some of its trips and the jobs behind them, and at no base does the
  visit stand at the beginning of the route.
Main exports: Plan.Trims, Work.Proceeds, Work.placeBases_eq_ok, Work.Reduced, cutDown, jobsOutside,
  Work.placeRoute_trims
-/
import Haulage.Proofs.Shape
import Mathlib.Data.List.Nodup
import Mathlib.Data.List.Pairwise

namespace Haulage

variable {α : Type} [Quantity α]

open Attempt Plan

/-! ### Stops that are taken out -/

namespace Plan

section

variable {plan middle next : Plan α} {r b : Nat} {stops between kept : List Stop}
  {jobs later : List Nat}

omit [Quantity α] in
theorem isFree_handBack {stop : Stop} (done : plan.handBack stop = .ok next) :
    next.pool.isFree b = true ↔ plan.pool.isFree b = true ∨ .base b = stop := by
  cases stop with
  | destination job =>
      cases done
      simp
  | base c =>
      simp only [handBack, bind_eq_ok] at done
      rcases done with ⟨⟨wasOut, pool⟩, released, equal⟩
      cases equal
      rw [Stop.base.injEq]
      cases taken : plan.pool.isFree c with
      | true =>
          simp only [BasePool.release, taken, if_true] at released
          cases released
          constructor
          · exact .inl
          · rintro (free | rfl)
            · exact free
            · exact taken
      | false =>
          obtain ⟨inside, _, rfl⟩ := (BasePool.release_eq_ok taken).mp released
          rw [BasePool.isFree_handedBack inside]
          by_cases same : c = b
          · simp [same]
          · simp [same, Ne.symm same]

omit [Quantity α] in
/-- The bases among stops that were handed back are free. -/
theorem isFree_handBackAll {taken : List Stop} (done : taken.foldlM handBack plan = .ok next) :
    next.pool.isFree b = true ↔ plan.pool.isFree b = true ∨ .base b ∈ taken := by
  induction taken generalizing plan with
  | nil =>
      cases done
      simp
  | cons stop taken inductionHypothesis =>
      rw [List.foldlM_cons, bind_eq_ok] at done
      rcases done with ⟨after, head, tail⟩
      rw [inductionHypothesis tail, isFree_handBack head, List.mem_cons, or_assoc]

/-- A route loses some of its stops.  The bases among them are free and some jobs unassigned, and
the bases of other routes are as they were. -/
structure Trims (r : Nat) (stops kept : List Stop) (jobs : List Nat) (plan next : Plan α) :
    Prop where
  itineraries : ∃ vehicle, plan.itineraries[r]? = some (vehicle, stops) ∧
    next.itineraries = plan.itineraries.set r (vehicle, kept)
  sublist : kept.Sublist stops
  free : ∀ b, next.pool.isFree b = true ↔
    plan.pool.isFree b = true ∨ (.base b ∈ stops ∧ .base b ∉ kept)
  unassigned : ∀ job, job ∈ next.unassigned ↔ job ∈ plan.unassigned ∨ job ∈ jobs
  elsewhere : ∀ b, .base b ∉ stops → next.pool.base b = plan.pool.base b

omit [Quantity α] in
theorem Trims.visits (trims : Trims r stops kept jobs plan next) : next.Visits r kept := by
  rcases trims.itineraries with ⟨vehicle, found, changed⟩
  refine ⟨vehicle, ?_⟩
  rw [changed, List.getElem?_set_self (List.getElem?_eq_some_iff.mp found).1]

omit [Quantity α] in
theorem Trims.others {i : Nat} (trims : Trims r stops kept jobs plan next) (apart : r ≠ i) :
    next.itineraries[i]? = plan.itineraries[i]? := by
  rcases trims.itineraries with ⟨_, _, changed⟩
  rw [changed, List.getElem?_set_ne apart]

omit [Quantity α] in
theorem Trims.refl (visits : plan.Visits r stops) : Trims r stops stops [] plan plan := by
  rcases visits with ⟨vehicle, found⟩
  refine ⟨⟨vehicle, found, ?_⟩, .refl _, fun b => ?_, fun job => ?_, fun _ _ => rfl⟩
  · obtain ⟨inside, equal⟩ := List.getElem?_eq_some_iff.mp found
    rw [← equal, List.set_getElem_self]
  · tauto
  · simp

omit [Quantity α] in
theorem Trims.trans (first : Trims r stops between jobs plan middle)
    (second : Trims r between kept later middle next) :
    Trims r stops kept (jobs ++ later) plan next := by
  rcases first.itineraries with ⟨vehicle, found, changed⟩
  rcases second.itineraries with ⟨_, again, changedAgain⟩
  rw [changed, List.getElem?_set_self (List.getElem?_eq_some_iff.mp found).1] at again
  cases again
  refine ⟨⟨vehicle, found, by rw [changedAgain, changed, List.set_set]⟩,
    second.sublist.trans first.sublist, fun b => ?_, fun job => ?_, fun b outside => ?_⟩
  · have fewer : .base b ∈ between → .base b ∈ stops := fun member => first.sublist.subset member
    have fewerAgain : .base b ∈ kept → .base b ∈ between := fun member =>
      second.sublist.subset member
    rw [second.free, first.free]
    tauto
  · rw [second.unassigned, first.unassigned, List.mem_append, or_assoc]
  · have outsideNow : Stop.base b ∉ between := fun member => outside (first.sublist.subset member)
    rw [second.elsewhere b outsideNow, first.elsewhere b outside]

/-- Stops are taken out of a route and handed back, and the route is refreshed. -/
theorem Trims.of_handBackAll {p : Problem α} {route : Route} {taken : List Stop}
    (found : plan.routes[r]? = some route) (once : route.stops.Nodup)
    (split : (taken ++ kept).Perm route.stops) (sublist : kept.Sublist route.stops)
    (listed : ∀ job, job ∈ jobs ↔ .destination job ∈ taken)
    (handed : taken.foldlM handBack (plan.setRoute r { route with stops := kept }) = .ok middle)
    (refreshed : middle.refreshRoute p r = .ok next) :
    Trims r route.stops kept jobs plan next := by
  obtain ⟨itineraries, pool, unassigned⟩ := refreshRoute_keeps refreshed
  have apart := (List.nodup_append.mp (split.nodup_iff.mpr once)).2.2
  have among (b : Nat) : .base b ∈ taken ↔ .base b ∈ route.stops ∧ .base b ∉ kept := by
    rw [← split.mem_iff, List.mem_append]
    have never : .base b ∈ taken → .base b ∉ kept := fun goes stays => apart _ goes _ stays rfl
    tauto
  refine ⟨⟨route.vehicle, itineraries_of_route found, ?_⟩, sublist, fun b => ?_, fun job => ?_,
    fun b outside => ?_⟩
  · rw [itineraries, Plan.itineraries, (handBackAll_keeps handed).1, ← Plan.itineraries,
      itineraries_setRoute]
  · rw [pool, isFree_handBackAll handed, pool_setRoute, among]
  · rw [unassigned, mem_handBackAll handed, listed]
    rfl
  · have absent : Stop.base b ∉ taken := fun goes => outside ((among b).mp goes).1
    have kept := base_handBackAll absent handed
    rw [pool, kept, pool_setRoute]

theorem splitIdleBases_sublist (afterBase : Bool) (stops : List Stop) :
    (splitIdleBases afterBase stops).1.Sublist stops := by
  induction stops generalizing afterBase with
  | nil => exact .slnil
  | cons stop rest inductionHypothesis =>
      cases stop with
      | destination job => exact (inductionHypothesis false).cons_cons _
      | base b =>
          cases afterBase with
          | true => exact (inductionHypothesis true).cons _
          | false => exact (inductionHypothesis true).cons_cons _

theorem visits_of_repairRoute {p : Problem α} (done : plan.repairRoute p r = .ok next) :
    ∃ stops, plan.Visits r stops := by
  simp only [Plan.repairRoute, bind_eq_ok] at done
  rcases done with ⟨⟨count, cleared⟩, tidied, _⟩
  obtain ⟨route, found, _⟩ := clearIdleBases_eq_ok.mp tidied
  exact ⟨route.stops, visits_of_route found⟩

/-- The repair of a route takes out the bases that close no trip. -/
theorem Trims.repairRoute {p : Problem α} (visits : plan.Visits r stops) (once : stops.Nodup)
    (done : plan.repairRoute p r = .ok next) :
    Trims r stops (splitIdleBases true stops).1 [] plan next := by
  simp only [Plan.repairRoute, bind_eq_ok] at done
  rcases done with ⟨⟨count, cleared⟩, tidied, refreshed⟩
  obtain ⟨route, found, _, handed⟩ := clearIdleBases_eq_ok.mp tidied
  obtain rfl := visits.unique (visits_of_route found)
  exact .of_handBackAll found once (splitIdleBases_perm true route.stops)
    (splitIdleBases_sublist true route.stops) (by simp) handed refreshed

end

end Plan

section

variable {p : Problem α} {settings : Settings α} {r b location : Nat} {placed rest : List Stop}
  {trip : List Nat} {duration : Duration} {w next : Work α}

/-- A base that is put somewhere takes no stop out. -/
theorem Places.trims (places : Places p settings r placed trip b rest location duration w next) :
    Trims r (placed ++ (trip.map .destination ++ .base b :: rest))
      (placed ++ (trip.map .destination ++ .base b :: rest)) [] w.plan next.plan := by
  rcases places.visits with ⟨vehicle, found⟩
  refine ⟨⟨vehicle, found, ?_⟩, .refl _, fun c => ?_, fun job => ?_, fun c outside => ?_⟩
  · obtain ⟨inside, equal⟩ := List.getElem?_eq_some_iff.mp found
    rw [places.itineraries_eq, ← equal, List.set_getElem_self]
  · rcases places.plan_eq with ⟨plan, put, refreshed⟩
    obtain ⟨_, rfl⟩ := placeBase_eq_ok.mp put
    rw [(refreshRoute_keeps refreshed).2.1, BasePool.isFree_placed]
    tauto
  · rcases places.plan_eq with ⟨plan, put, refreshed⟩
    obtain ⟨_, rfl⟩ := placeBase_eq_ok.mp put
    simp [(refreshRoute_keeps refreshed).2.2]
  · apply places.base_of_ne
    rintro rfl
    exact outside (by simp)

/-- A trip is taken out with its base. -/
theorem Drops.trims (drops : Drops p r placed trip b rest w next)
    (once : (placed ++ (trip.map Stop.destination ++ .base b :: rest)).Nodup) :
    Trims r (placed ++ (trip.map .destination ++ .base b :: rest)) (placed ++ rest) trip w.plan
      next.plan := by
  rcases drops.plan_eq with ⟨route, plan, found, whole, handed, refreshed⟩
  rw [← whole] at once ⊢
  refine .of_handBackAll found once ?_ ?_ (by simp) handed refreshed
  · rw [whole]
    have turned : (Stop.base b :: (trip.map Stop.destination).reverse).Perm
        (trip.map Stop.destination ++ [.base b]) :=
      ((List.reverse_perm _).cons _).trans (List.perm_append_singleton _ _).symm
    have parts : placed ++ (trip.map Stop.destination ++ .base b :: rest) =
        placed ++ ((trip.map Stop.destination ++ [.base b]) ++ rest) := by simp
    rw [parts]
    refine (turned.append_right _).trans ?_
    rw [← List.append_assoc, ← List.append_assoc]
    exact List.perm_append_comm.append_right rest
  · rw [whole]
    refine .append_left ?_ placed
    rw [← List.singleton_append, ← List.append_assoc]
    exact List.sublist_append_right _ _

end

section

variable {p : Problem α} {r b : Nat} {placed rest : List Stop} {trip : List Nat}
  {s : PlacementState α} {w next : Work α}

/-- The bases of trips that were placed stay as they are when a trip is taken out. -/
theorem Drops.base_of_placed {c : Nat} (drops : Drops p r placed trip b rest w next)
    (once : (placed ++ (trip.map Stop.destination ++ .base b :: rest)).Nodup)
    (member : .base c ∈ placed) : next.plan.pool.base c = w.plan.pool.base c := by
  have absent : Stop.base c ∉ Stop.base b :: (trip.map Stop.destination).reverse := by
    intro among
    obtain rfl : c = b := by simpa using among
    exact (List.nodup_append.mp once).2.2 _ member _ (by simp) rfl
  rcases drops.plan_eq with ⟨_, _, _, _, handed, refreshed⟩
  have kept := base_handBackAll absent handed
  rw [(refreshRoute_keeps refreshed).2.1, kept, pool_setRoute]

theorem Visiting.serves {job : Nat} {d : Destination α} {plan : Plan α}
    (visiting : Visiting p plan r s placed trip (.destination job :: rest))
    (served : p.destination job = .ok d) :
    Visiting p plan r { s with passed := s.passed + 1, load := s.load + d.demand } placed
      (trip ++ [job]) rest := by
  rcases visiting with ⟨visits, start, passed, load⟩
  refine ⟨by simpa using visits, start, by simp [passed], ?_⟩
  rw [Problem.demandOf_append_singleton, Problem.demand_eq served, ← load]

namespace Work

theorem places_of_putBase {settings : Settings α} {location : Nat} {query : LocationQuery α}
    (visiting : Visiting p w.plan r s placed trip (.base b :: rest))
    (asked : placementQuery p w.plan r s = .ok query)
    (choice : cheapestLoadable p settings.provider w.volumes query s.load = .ok (some location))
    (put : putBase p settings r s b location query w w = .ok () next) :
    ∃ duration, Places p settings r placed trip b rest location duration w next := by
  have ends : Ends (putBase p settings r s b location query w)
      (fun _ next => ∃ duration, Places p settings r placed trip b rest location duration w next)
      (fun _ _ => True) w :=
    putBase_ends visiting asked choice (fun _ _ => trivial) (fun _ _ _ _ _ _ => trivial)
      fun _ _ duration _ _ places => ⟨duration, places⟩
  rwa [Ends, put] at ends

theorem drops_of_dropTrip (settings : Settings α) {jobs : List Nat}
    (visiting : Visiting p w.plan r s placed trip (.base b :: rest))
    (dropped : dropTrip p r s w w = .ok jobs next) :
    jobs = trip ∧ Drops p r placed trip b rest w next := by
  have ends : Ends (dropTrip p r s w)
      (fun jobs next => jobs = trip ∧ Drops p r placed trip b rest w next) (fun _ _ => True) w :=
    dropTrip_ends visiting (fun e (_ : Halts p settings r s w (.base b :: rest) e) => trivial)
      fun _ drops => ⟨rfl, drops⟩
  rwa [Ends, dropped] at ends

end Work

end

/-! ### The steps of a visit -/

namespace Work

variable {p : Problem α} {settings : Settings α} {r : Nat}

/-- How the visit of a route proceeds.  It passes a job, puts a base somewhere or takes the trip
under way out, and goes on with the stops ahead.  The list holds the jobs that it takes out. -/
inductive Proceeds (p : Problem α) (settings : Settings α) (r : Nat) :
    PlacementState α → List Stop → Work α → List Nat → PlacementState α → List Stop → Work α → Prop
  | stays (s : PlacementState α) (stops : List Stop) (w : Work α) :
      Proceeds p settings r s stops w [] s stops w
  | serves {s now : PlacementState α} {job : Nat} {d : Destination α} {rest ahead : List Stop}
      {w last : Work α} {removed : List Nat} (served : p.destination job = .ok d)
      (later : Proceeds p settings r { s with passed := s.passed + 1, load := s.load + d.demand }
        rest w removed now ahead last) :
      Proceeds p settings r s (.destination job :: rest) w removed now ahead last
  | places {s now : PlacementState α} {b location : Nat} {query : LocationQuery α}
      {rest ahead : List Stop} {w next last : Work α} {removed : List Nat}
      (asked : placementQuery p w.plan r s = .ok query)
      (choice : cheapestLoadable p settings.provider w.volumes query s.load = .ok (some location))
      (put : putBase p settings r s b location query w w = .ok () next)
      (later : Proceeds p settings r (s.behind location) rest next removed now ahead last) :
      Proceeds p settings r s (.base b :: rest) w removed now ahead last
  | drops {s now : PlacementState α} {b : Nat} {query : LocationQuery α}
      {rest ahead : List Stop} {w next last : Work α} {jobs removed : List Nat}
      (asked : placementQuery p w.plan r s = .ok query)
      (choice : cheapestLoadable p settings.provider w.volumes query s.load = .ok none)
      (dropped : dropTrip p r s w w = .ok jobs next)
      (later : Proceeds p settings r s.atTrip rest next removed now ahead last) :
      Proceeds p settings r s (.base b :: rest) w (jobs ++ removed) now ahead last

/-- A visit that is over has proceeded to where no stop lies ahead. -/
theorem placeBases_eq_ok {s : PlacementState α} {stops : List Stop} {w last : Work α}
    {removed : List Nat} :
    placeBases p settings r s stops w = .ok removed last ↔
      ∃ now, Proceeds p settings r s stops w removed now [] last := by
  constructor
  · intro done
    induction stops generalizing s w removed with
    | nil =>
        cases done
        exact ⟨s, .stays s [] _⟩
    | cons stop rest inductionHypothesis =>
        cases stop with
        | destination job =>
            simp only [placeBases, bind_answers, ofResult_answers] at done
            rcases done with ⟨d, _, ⟨served, rfl⟩, later⟩
            obtain ⟨now, proceeds⟩ := inductionHypothesis later
            exact ⟨now, .serves served proceeds⟩
        | base b =>
            rw [placeBases_base, get_bind] at done
            simp only [bind_answers, ofResult_answers] at done
            rcases done with ⟨query, _, ⟨asked, rfl⟩, chosen, _, ⟨choice, rfl⟩, run⟩
            cases chosen with
            | some location =>
                simp only [bind_answers] at run
                rcases run with ⟨_, next, put, later⟩
                obtain ⟨now, proceeds⟩ := inductionHypothesis later
                exact ⟨now, .places asked choice put proceeds⟩
            | none =>
                simp only [bind_answers] at run
                rcases run with ⟨jobs, next, dropped, others, _, later, equal⟩
                cases equal
                obtain ⟨now, proceeds⟩ := inductionHypothesis later
                exact ⟨now, .drops asked choice dropped proceeds⟩
  · rintro ⟨now, proceeds⟩
    generalize nothing : ([] : List Stop) = ahead at proceeds
    induction proceeds with
    | stays s stops w =>
        subst nothing
        rfl
    | serves served later inductionHypothesis =>
        rw [placeBases, ofResult_bind_of_ok served]
        exact inductionHypothesis nothing
    | places asked choice put later inductionHypothesis =>
        rw [placeBases_base, get_bind, ofResult_bind_of_ok asked, ofResult_bind_of_ok choice]
        exact bind_answers.mpr ⟨(), _, put, inductionHypothesis nothing⟩
    | drops asked choice dropped later inductionHypothesis =>
        rw [placeBases_base, get_bind, ofResult_bind_of_ok asked, ofResult_bind_of_ok choice]
        exact bind_answers.mpr ⟨_, _, dropped, bind_answers.mpr
          ⟨_, _, inductionHypothesis nothing, rfl⟩⟩

/-- The stops of the trips that were placed, of some trips that a visit has come past. -/
def stopsLeft (passed : List (Trip × Bool)) : List Stop :=
  (passed.filter (·.2)).flatMap (·.1.stops)

/-- The jobs of the trips that were taken out, of some trips that a visit has come past. -/
def jobsLost (passed : List (Trip × Bool)) : List Nat :=
  (passed.filter (!·.2)).flatMap (·.1.jobs)

/-- How a visit has cut down a route so far.  It has come past some trips of the route, each of which
was placed or taken out, and is on its way through another one. -/
structure Reduced (p : Problem α) (r : Nat) (begins : Plan α) (stops : List Stop)
    (passed : List (Trip × Bool)) (trip removed : List Nat) (s : PlacementState α)
    (ahead : List Stop) (w : Work α) : Prop where
  visiting : Visiting p w.plan r s (stopsLeft passed) trip ahead
  stops_eq : stops = passed.flatMap (·.1.stops) ++ (trip.map .destination ++ ahead)
  removed_eq : removed = jobsLost passed
  trims : Trims r stops (stopsLeft passed ++ (trip.map .destination ++ ahead)) removed begins w.plan
  located : ∀ b, .base b ∈ stopsLeft passed → ∃ location, w.plan.pool.locationOf b = some location

section

variable {begins : Plan α} {stops ahead : List Stop} {passed : List (Trip × Bool)}
  {trip removed jobs : List Nat} {s : PlacementState α} {b : Nat} {w next : Work α}

/-- A job is passed, which joins the trip under way. -/
theorem Reduced.serves {job : Nat} {d : Destination α}
    (reduced : Reduced p r begins stops passed trip removed s (.destination job :: ahead) w)
    (served : p.destination job = .ok d) :
    Reduced p r begins stops passed (trip ++ [job]) removed
      { s with passed := s.passed + 1, load := s.load + d.demand } ahead w := by
  rcases reduced with ⟨visiting, whole, listed, trims, located⟩
  have parts : (trip ++ [job]).map Stop.destination ++ ahead =
      trip.map .destination ++ .destination job :: ahead := by simp
  exact ⟨visiting.serves served, parts ▸ whole, listed, parts ▸ trims, located⟩

/-- The trip under way is closed by its base. -/
theorem Reduced.places {location : Nat} {duration : Duration}
    (reduced : Reduced p r begins stops passed trip removed s (.base b :: ahead) w)
    (places : Places p settings r (stopsLeft passed) trip b ahead location duration w next) :
    Reduced p r begins stops (passed ++ [(⟨trip, b⟩, true)]) [] removed (s.behind location) ahead
      next := by
  rcases reduced with ⟨visiting, whole, listed, trims, located⟩
  have left : stopsLeft (passed ++ [(⟨trip, b⟩, true)]) =
      stopsLeft passed ++ (trip.map .destination ++ [.base b]) := by
    simp [stopsLeft, Trip.stops]
  have kept := trims.trans places.trims
  refine ⟨left ▸ visiting.places places, by simp [whole, Trip.stops], ?_, ?_, fun c member => ?_⟩
  · simp [listed, jobsLost]
  · rw [left]
    simpa using kept
  · by_cases same : b = c
    · exact ⟨location, same ▸ places.locationOf_self⟩
    · have earlier : .base c ∈ stopsLeft passed := by simpa [left, Ne.symm same] using member
      rw [places.locationOf_of_ne same]
      exact located c earlier

/-- The trip under way is taken out. -/
theorem Reduced.drops (once : stops.Nodup)
    (reduced : Reduced p r begins stops passed trip removed s (.base b :: ahead) w)
    (drops : Drops p r (stopsLeft passed) trip b ahead w next) :
    Reduced p r begins stops (passed ++ [(⟨trip, b⟩, false)]) [] (removed ++ trip) s.atTrip ahead
      next := by
  rcases reduced with ⟨visiting, whole, listed, trims, located⟩
  have left : stopsLeft (passed ++ [(⟨trip, b⟩, false)]) = stopsLeft passed := by
    simp [stopsLeft]
  have onceNow := once.sublist trims.sublist
  refine ⟨left.symm ▸ visiting.drops drops, by simp [whole, Trip.stops], ?_, ?_,
    fun c member => ?_⟩
  · simp [listed, jobsLost]
  · rw [left]
    exact trims.trans (drops.trims onceNow)
  · rw [left] at member
    rw [BasePool.locationOf_congr (drops.base_of_placed onceNow member)]
    exact located c member

/-- What the steps of a visit do to a route. -/
theorem Proceeds.reduces {now : PlacementState α} {front last : Work α} {rest : List Stop}
    {before : List Nat} (once : stops.Nodup)
    (proceeds : Proceeds p settings r s rest front removed now ahead last)
    (reduced : Reduced p r begins stops passed trip before s rest front) :
    ∃ passed trip, Reduced p r begins stops passed trip (before ++ removed) now ahead last := by
  induction proceeds generalizing passed trip before with
  | stays s rest w =>
      rw [List.append_nil]
      exact ⟨passed, trip, reduced⟩
  | serves served later inductionHypothesis =>
      exact inductionHypothesis (reduced.serves served)
  | places asked choice put later inductionHypothesis =>
      obtain ⟨duration, places⟩ := places_of_putBase reduced.visiting asked choice put
      exact inductionHypothesis (reduced.places places)
  | drops asked choice dropped later inductionHypothesis =>
      obtain ⟨rfl, drops⟩ := drops_of_dropTrip settings reduced.visiting dropped
      rw [← List.append_assoc]
      exact inductionHypothesis (reduced.drops once drops)

end

end Work

/-! ### What is left of a route -/

/-- Trips with some stops behind them. -/
theorem tripsOf_flatMap_stops (trips : List Trip) (rest : List Stop) :
    tripsOf [] (trips.flatMap Trip.stops ++ rest) = (trips ++ closedTrips rest, openJobs rest) := by
  induction trips with
  | nil => rfl
  | cons t trips inductionHypothesis =>
      have behind : (t :: trips).flatMap Trip.stops ++ rest =
          t.jobs.map .destination ++ .base t.base :: (trips.flatMap Trip.stops ++ rest) := by
        simp [Trip.stops]
      rw [behind, tripsOf_lead, closedTrips, openJobs, inductionHypothesis]
      rfl

/-- Whether the base that closes a trip is among some stops. -/
def Trip.endsAmong (stops : List Stop) (t : Trip) : Bool := decide (.base t.base ∈ stops)

/-- A route with only those of its trips that serve a job and stay, and with the jobs behind them. -/
def cutDown (stays : Trip → Bool) (stops : List Stop) : List Stop :=
  ((closedTrips stops).filter fun t => !t.jobs.isEmpty && stays t).flatMap Trip.stops ++
    (openJobs stops).map .destination

/-- The jobs of the trips that do not stay. -/
def jobsOutside (stays : Trip → Bool) (trips : List Trip) : List Nat :=
  (trips.filter fun t => !stays t).flatMap (·.jobs)

theorem cutDown_congr {stays others : Trip → Bool} {stops : List Stop}
    (same : ∀ t ∈ closedTrips stops, others t = stays t) : cutDown others stops = cutDown stays stops := by
  have among : ∀ t ∈ closedTrips stops,
      (!t.jobs.isEmpty && others t) = (!t.jobs.isEmpty && stays t) :=
    fun t member => congrArg (!t.jobs.isEmpty && ·) (same t member)
  rw [cutDown, cutDown, List.filter_congr among]

theorem jobsOutside_congr {stays others : Trip → Bool} {trips : List Trip}
    (same : ∀ t ∈ trips, others t = stays t) : jobsOutside others trips = jobsOutside stays trips := by
  have among : ∀ t ∈ trips, (!others t) = !stays t := fun t member => congrArg (! ·) (same t member)
  rw [jobsOutside, jobsOutside, List.filter_congr among]

/-- A trip that serves no job has none to lose. -/
theorem jobsOutside_filter (stays : Trip → Bool) (trips : List Trip) :
    jobsOutside stays (trips.filter fun t => !t.jobs.isEmpty) = jobsOutside stays trips := by
  induction trips with
  | nil => rfl
  | cons t trips inductionHypothesis =>
      simp only [jobsOutside] at inductionHypothesis ⊢
      by_cases stay : stays t = true
      · by_cases none : t.jobs = []
        · simpa [none, stay] using inductionHypothesis
        · simpa [none, stay] using inductionHypothesis
      · by_cases none : t.jobs = []
        · simpa [none, stay] using inductionHypothesis
        · simpa [none, stay] using inductionHypothesis

theorem jobsOutside_flatMap {β : Type} (stays : Trip → Bool) (trips : β → List Trip)
    (rows : List β) : jobsOutside stays (rows.flatMap trips) =
      rows.flatMap fun row => jobsOutside stays (trips row) := by
  simp only [jobsOutside, List.filter_flatMap, List.flatMap_assoc]

/-- Idle bases do not count. -/
theorem cutDown_splitIdleBases (stays : Trip → Bool) (stops : List Stop) :
    cutDown stays (splitIdleBases true stops).1 = cutDown stays stops := by
  have whole : tripsOf [] (splitIdleBases true stops).1 = (_, openJobs stops) :=
    tripsOf_splitIdleBases [] stops
  have jobs : openJobs (splitIdleBases true stops).1 = openJobs stops := by rw [openJobs, whole]
  rw [cutDown, closedTrips_splitIdleBases, jobs, List.filter_filter, cutDown]
  have both : (fun t : Trip => !t.jobs.isEmpty && stays t && !t.jobs.isEmpty) =
      fun t => !t.jobs.isEmpty && stays t := by
    funext t
    cases t.jobs.isEmpty with
    | true => rfl
    | false => simp
  rw [both]

/-- Every trip that is left serves a job. -/
theorem serves_cutDown {stays : Trip → Bool} {stops : List Stop} :
    ∀ t ∈ closedTrips (cutDown stays stops), t.jobs ≠ [] := by
  intro t member
  have none : closedTrips ((openJobs stops).map .destination) = [] :=
    congrArg Prod.fst (tripsOf_destinations [] (openJobs stops))
  rw [closedTrips, cutDown, tripsOf_flatMap_stops, none, List.append_nil] at member
  have known := (List.mem_filter.mp member).2
  simp only [Bool.and_eq_true, Bool.not_eq_true', List.isEmpty_eq_false_iff] at known
  exact known.1

namespace Work

section

variable {p : Problem α} {settings : Settings α} {r : Nat} {begins : Plan α}
  {stops ahead : List Stop} {passed : List (Trip × Bool)} {trip removed : List Nat}
  {s : PlacementState α} {w next : Work α}

/-- The trips of a route are those that the visit came past, the one under way and those ahead. -/
theorem Reduced.tripsOf_eq (reduced : Reduced p r begins stops passed trip removed s ahead w) :
    tripsOf [] stops = (passed.map (·.1) ++ (tripsOf trip ahead).1, (tripsOf trip ahead).2) := by
  have behind : passed.flatMap (·.1.stops) = (passed.map (·.1)).flatMap Trip.stops := by
    rw [List.flatMap_map]
  have later : tripsOf [] (trip.map .destination ++ ahead) = tripsOf trip ahead := by
    rw [tripsOf_append, tripsOf_destinations]
    rfl
  rw [reduced.stops_eq, behind, tripsOf_flatMap_stops, closedTrips, openJobs, later]

/-- A trip that the visit came past was placed when its base is left. -/
theorem Reduced.placed_iff (once : stops.Nodup)
    (reduced : Reduced p r begins stops passed trip removed s ahead w) {t : Trip} {placed : Bool}
    (member : (t, placed) ∈ passed) : .base t.base ∈ stopsLeft passed ↔ placed = true := by
  rw [reduced.stops_eq] at once
  have disjoint := (List.nodup_flatMap.mp (List.nodup_append.mp once).1).2
  have closes (other : Trip) : Stop.base other.base ∈ other.stops := by simp [Trip.stops]
  rw [stopsLeft, List.mem_flatMap]
  constructor
  · rintro ⟨⟨other, stays⟩, among, here⟩
    obtain ⟨passes, rfl⟩ := List.mem_filter.mp among
    by_contra lost
    have apart : (t, placed) ≠ (other, true) := fun equal => lost (congrArg Prod.snd equal)
    have symm : Std.Symm (Function.onFun List.Disjoint fun e : Trip × Bool => e.1.stops) :=
      ⟨fun _ _ disjoint _ here there => disjoint there here⟩
    have never := disjoint.forall member passes apart
    exact never (closes t) here
  · rintro rfl
    exact ⟨(t, true), List.mem_filter.mpr ⟨member, rfl⟩, closes t⟩

/-- A base of a route without idle bases closes a trip with jobs, and jobs or nothing follow it. -/
theorem Reduced.trip_ne_nil {b : Nat} (serves : ∀ t ∈ closedTrips stops, t.jobs ≠ [])
    (reduced : Reduced p r begins stops passed trip removed s (.base b :: ahead) w) : trip ≠ [] := by
  apply serves ⟨trip, b⟩
  rw [closedTrips, reduced.tripsOf_eq]
  exact List.mem_append_right _ List.mem_cons_self

theorem Reduced.unclosed {b : Nat} (serves : ∀ t ∈ closedTrips stops, t.jobs ≠ [])
    (reduced : Reduced p r begins stops passed trip removed s (.base b :: ahead) w) :
    ahead.head?.all (·.isDestination) = true := by
  cases ahead with
  | nil => rfl
  | cons stop rest =>
      cases stop with
      | destination job => rfl
      | base c =>
          refine absurd rfl (serves ⟨[], c⟩ ?_)
          rw [closedTrips, reduced.tripsOf_eq]
          exact List.mem_append_right _ (List.mem_cons_of_mem _ List.mem_cons_self)

/-- At a base of a route without idle bases, a job lies right behind the visit. -/
theorem Reduced.behind_job {b : Nat} (serves : ∀ t ∈ closedTrips stops, t.jobs ≠ [])
    (reduced : Reduced p r begins stops passed trip removed s (.base b :: ahead) w) :
    ∃ route job, w.plan.routes[r]? = some route ∧ 0 < s.tripStart + s.passed ∧
      route.stops[s.tripStart + s.passed - 1]? = some (.destination job) := by
  have serving := reduced.trip_ne_nil serves
  obtain ⟨jobs, job, rfl⟩ : ∃ jobs job, trip = jobs ++ [job] :=
    ⟨_, _, (List.dropLast_append_getLast serving).symm⟩
  rcases reduced.visiting.visits with ⟨vehicle, visits⟩
  obtain ⟨route, found, _, whole⟩ := itineraries_eq_some.mp visits
  have split : route.stops =
      (stopsLeft passed ++ jobs.map .destination) ++ .destination job :: .base b :: ahead := by
    simp [whole]
  have position : s.tripStart + s.passed =
      (stopsLeft passed ++ jobs.map Stop.destination).length + 1 := by
    simp [reduced.visiting.start_eq, reduced.visiting.passed_eq]
    omega
  refine ⟨route, job, found, by omega, ?_⟩
  rw [position, split, Nat.add_sub_cancel, List.getElem?_append_right (Nat.le_refl _), Nat.sub_self]
  rfl

/-- When the visit is over, the route is cut down to the trips whose bases are left. -/
theorem Reduced.eq_cutDown (once : stops.Nodup) (serves : ∀ t ∈ closedTrips stops, t.jobs ≠ [])
    (reduced : Reduced p r begins stops passed trip removed s [] w) :
    let kept := stopsLeft passed ++ trip.map .destination
    kept = cutDown (Trip.endsAmong kept) stops ∧
      removed = jobsOutside (Trip.endsAmong kept) (closedTrips stops) := by
  intro kept
  have whole : tripsOf [] stops = (passed.map (·.1), trip) := by
    rw [reduced.tripsOf_eq]
    simp [tripsOf]
  have ends : ∀ e ∈ passed, e.1.endsAmong kept = e.2 := by
    intro e member
    rw [Bool.eq_iff_iff, ← reduced.placed_iff once member]
    simp [Trip.endsAmong, kept]
  have known : ∀ e ∈ passed, e.1.jobs ≠ [] := by
    intro e member
    apply serves
    rw [closedTrips, whole]
    exact List.mem_map_of_mem member
  constructor
  · rw [cutDown, closedTrips, openJobs, whole, List.filter_map, List.flatMap_map,
      List.filter_congr (q := fun e => e.2) fun e member => by simp [ends e member, known e member]]
    rfl
  · have lost : ∀ e ∈ passed, ((fun t => !Trip.endsAmong kept t) ∘ (·.1)) e = !e.2 :=
      fun e member => congrArg (! ·) (ends e member)
    rw [jobsOutside, closedTrips, whole, List.filter_map, List.flatMap_map, reduced.removed_eq,
      jobsLost, List.filter_congr lost]

end

/-! ### The visit of a route -/

section

variable {p : Problem α} {settings : Settings α} {r : Nat} {stops : List Stop}
  {removed : List Nat} {w next : Work α}

theorem placeRoute_eq_ok :
    placeRoute p settings r w = .ok removed next ↔
      ∃ plan route, w.plan.repairRoute p r = .ok plan ∧ plan.routes[r]? = some route ∧
        placeBases p settings r ⟨0, 0, .empty, 0, []⟩ route.stops { w with plan := plan } =
          .ok removed next := by
  simp only [placeRoute, get_bind, bind_answers, ofResult_answers, Plan.repairRoute, bind_eq_ok,
    route_eq_ok]
  constructor
  · rintro ⟨⟨count, cleared⟩, _, ⟨tidied, rfl⟩, plan, _, ⟨refreshed, rfl⟩, _, _, put, route, _,
      ⟨found, rfl⟩, done⟩
    cases put
    exact ⟨plan, route, ⟨_, tidied, refreshed⟩, found, done⟩
  · rintro ⟨plan, route, ⟨⟨count, cleared⟩, tidied, refreshed⟩, found, done⟩
    exact ⟨(count, cleared), w, ⟨tidied, rfl⟩, plan, w, ⟨refreshed, rfl⟩, ⟨⟩, _, rfl, route, _,
      ⟨found, rfl⟩, done⟩

/-- The visit of a route begins with all its trips ahead. -/
theorem Reduced.start {plan : Plan α} (visits : plan.Visits r stops) (volumes : Volumes α) :
    Reduced p r plan stops [] [] [] ⟨0, 0, .empty, 0, []⟩ stops ⟨plan, volumes⟩ :=
  ⟨visiting_start visits, rfl, rfl, .refl visits, fun _ member => absurd member List.not_mem_nil⟩

/-- A visit cuts a route down to some of its trips. -/
theorem placeRoute_trims (visits : w.plan.Visits r stops) (once : stops.Nodup)
    (done : placeRoute p settings r w = .ok removed next) :
    ∃ kept, Trims r stops kept removed w.plan next.plan ∧
      kept = cutDown (Trip.endsAmong kept) stops ∧
      removed = jobsOutside (Trip.endsAmong kept) (closedTrips stops) ∧
      InTrips True next.plan.pool kept := by
  obtain ⟨plan, route, repaired, found, visited⟩ := placeRoute_eq_ok.mp done
  have tidied := Trims.repairRoute visits once repaired
  have tidy := tidied.visits.unique (visits_of_route found)
  have serves : ∀ t ∈ closedTrips (splitIdleBases true stops).1, t.jobs ≠ [] := by
    intro t member
    rw [closedTrips_splitIdleBases] at member
    simpa using (List.mem_filter.mp member).2
  rw [← tidy] at visited
  obtain ⟨now, proceeds⟩ := placeBases_eq_ok.mp visited
  have onceNow := once.sublist tidied.sublist
  obtain ⟨passed, trip, reduced⟩ := proceeds.reduces onceNow (.start tidied.visits w.volumes)
  obtain ⟨keeps, loses⟩ := reduced.eq_cutDown onceNow serves
  rw [cutDown_splitIdleBases] at keeps
  rw [closedTrips_splitIdleBases, jobsOutside_filter, List.nil_append] at loses
  refine ⟨stopsLeft passed ++ trip.map .destination, ?_, keeps, loses, ?_, fun b member => ?_,
    fun no => absurd trivial no⟩
  · simpa using tidied.trans reduced.trims
  · rw [keeps]
    exact serves_cutDown
  · exact reduced.located b (by simpa using member)

end

end Work

end Haulage

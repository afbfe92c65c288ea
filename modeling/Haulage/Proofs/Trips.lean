/-
Module: Haulage.Proofs.Trips
Purpose: The trips of a route as they are read off its stops, and what becomes of them when a stop
  is put into the route.
Main exports: Trip, closedTrips, openJobs, jobsOfTrip, begins_of_jobsOfTrip, TakesUp,
  takesUp_insert, closedTrips_append_base
-/
import Haulage.Stop
import Mathlib.Data.List.Perm.Basic

namespace Haulage

/-- The number of bases among some stops, which is the number of trips that they close. -/
def basesIn (stops : List Stop) : Nat := stops.countP (·.isBase)

@[simp] theorem basesIn_nil : basesIn [] = 0 := rfl

@[simp] theorem basesIn_append (before after : List Stop) :
    basesIn (before ++ after) = basesIn before + basesIn after := List.countP_append

@[simp] theorem basesIn_destination (job : Nat) (rest : List Stop) :
    basesIn (.destination job :: rest) = basesIn rest := by simp [basesIn]

@[simp] theorem basesIn_base (b : Nat) (rest : List Stop) :
    basesIn (.base b :: rest) = basesIn rest + 1 := List.countP_cons_of_pos rfl

/-- A trip that a base closes. -/
structure Trip where
  jobs : List Nat
  base : Nat
deriving DecidableEq, Repr

/-- The stops of a trip. -/
def Trip.stops (t : Trip) : List Stop := t.jobs.map .destination ++ [.base t.base]

/-- The trips that are closed, when a trip with some jobs is under way, and the jobs after them. -/
def tripsOf (served : List Nat) : List Stop → List Trip × List Nat
  | [] => ([], served)
  | .destination job :: rest => tripsOf (served ++ [job]) rest
  | .base b :: rest => (⟨served, b⟩ :: (tripsOf [] rest).1, (tripsOf [] rest).2)

/-- The closed trips of a route. -/
def closedTrips (stops : List Stop) : List Trip := (tripsOf [] stops).1

/-- The jobs after the last base of a route. -/
def openJobs (stops : List Stop) : List Nat := (tripsOf [] stops).2

@[simp] theorem closedTrips_nil : closedTrips [] = [] := rfl

@[simp] theorem openJobs_nil : openJobs [] = [] := rfl

theorem tripsOf_append (served : List Nat) (before after : List Stop) :
    tripsOf served (before ++ after) =
      ((tripsOf served before).1 ++ (tripsOf (tripsOf served before).2 after).1,
        (tripsOf (tripsOf served before).2 after).2) := by
  induction before generalizing served with
  | nil => rfl
  | cons stop before inductionHypothesis =>
      cases stop with
      | destination job => exact inductionHypothesis (served ++ [job])
      | base b => simp only [List.cons_append, tripsOf, inductionHypothesis []]

theorem tripsOf_destinations (served jobs : List Nat) :
    tripsOf served (jobs.map .destination) = ([], served ++ jobs) := by
  induction jobs generalizing served with
  | nil => simp [tripsOf]
  | cons job jobs inductionHypothesis =>
      rw [List.map_cons, tripsOf, inductionHypothesis]
      simp

theorem closedTrips_append (before after : List Stop) :
    closedTrips (before ++ after) = closedTrips before ++ (tripsOf (openJobs before) after).1 := by
  simp only [closedTrips, openJobs, tripsOf_append]

theorem openJobs_append (before after : List Stop) :
    openJobs (before ++ after) = (tripsOf (openJobs before) after).2 := by
  simp only [openJobs, tripsOf_append]

/-- A route is its closed trips with the jobs after them. -/
theorem tripsOf_stops (served : List Nat) (stops : List Stop) :
    ((tripsOf served stops).1.flatMap Trip.stops) ++
      (tripsOf served stops).2.map .destination = served.map .destination ++ stops := by
  induction stops generalizing served with
  | nil => simp [tripsOf]
  | cons stop rest inductionHypothesis =>
      cases stop with
      | destination job => simp [tripsOf, inductionHypothesis]
      | base b =>
          have later := inductionHypothesis []
          simp only [List.map_nil, List.nil_append] at later
          simp [tripsOf, Trip.stops, later]

theorem stops_eq_trips (stops : List Stop) :
    stops = (closedTrips stops).flatMap Trip.stops ++ (openJobs stops).map .destination := by
  have whole := tripsOf_stops [] stops
  exact whole.symm

/-- The base of a closed trip is a stop of the route, and so are its jobs. -/
theorem stops_of_mem_closedTrips {stops : List Stop} {t : Trip} (member : t ∈ closedTrips stops) :
    .base t.base ∈ stops ∧ ∀ job ∈ t.jobs, .destination job ∈ stops := by
  have whole := stops_eq_trips stops
  have within : ∀ stop ∈ t.stops, stop ∈ stops := by
    intro stop among
    rw [whole]
    exact List.mem_append_left _ (List.mem_flatMap.mpr ⟨t, member, among⟩)
  exact ⟨within _ (by simp [Trip.stops]), fun job served =>
    within _ (by simp [Trip.stops, served])⟩

/-- The jobs of a trip by its number, be it closed or not. -/
def jobsOfTrip (stops : List Stop) (trip : Nat) : List Nat :=
  ((closedTrips stops).map (·.jobs) ++ [openJobs stops])[trip]?.getD []

/-! ### Numbers of trips -/

theorem length_tripsOf (served : List Nat) (stops : List Stop) :
    (tripsOf served stops).1.length = basesIn stops := by
  induction stops generalizing served with
  | nil => rfl
  | cons stop rest inductionHypothesis =>
      cases stop with
      | destination job => simp [tripsOf, inductionHypothesis]
      | base b => simp [tripsOf, inductionHypothesis]

@[simp] theorem length_closedTrips (stops : List Stop) :
    (closedTrips stops).length = basesIn stops := length_tripsOf [] stops

theorem jobsOfTrip_closed {stops : List Stop} {k : Nat} {t : Trip}
    (found : (closedTrips stops)[k]? = some t) : jobsOfTrip stops k = t.jobs := by
  obtain ⟨inside, rfl⟩ := List.getElem?_eq_some_iff.mp found
  rw [jobsOfTrip, List.getElem?_append_left (by simpa using inside), List.getElem?_map, found]
  rfl

theorem jobsOfTrip_open (stops : List Stop) :
    jobsOfTrip stops (basesIn stops) = openJobs stops := by
  rw [jobsOfTrip, List.getElem?_append_right (by simp)]
  simp

/-- Up to the next base there are only destinations. -/
theorem exists_lead (stops : List Stop) :
    ∃ lead : List Nat, stops = lead.map .destination ∨
      ∃ b rest, stops = lead.map .destination ++ .base b :: rest := by
  induction stops with
  | nil => exact ⟨[], .inl rfl⟩
  | cons stop rest inductionHypothesis =>
      cases stop with
      | destination job =>
          rcases inductionHypothesis with ⟨lead, rfl | ⟨b, later, rfl⟩⟩
          · exact ⟨job :: lead, .inl rfl⟩
          · exact ⟨job :: lead, .inr ⟨b, later, rfl⟩⟩
      | base b => exact ⟨[], .inr ⟨b, rest, rfl⟩⟩

theorem tripsOf_lead (served lead : List Nat) (b : Nat) (rest : List Stop) :
    tripsOf served (lead.map .destination ++ .base b :: rest) =
      (⟨served ++ lead, b⟩ :: closedTrips rest, openJobs rest) := by
  rw [tripsOf_append, tripsOf_destinations]
  rfl

/-! ### The jobs of a trip, stop by stop -/

@[simp] theorem jobsOfTrip_nil (k : Nat) : jobsOfTrip [] k = [] := by
  cases k with
  | zero => rfl
  | succ k => rfl

@[simp] theorem jobsOfTrip_base_zero (b : Nat) (rest : List Stop) :
    jobsOfTrip (.base b :: rest) 0 = [] := rfl

@[simp] theorem jobsOfTrip_base_succ (b : Nat) (rest : List Stop) (k : Nat) :
    jobsOfTrip (.base b :: rest) (k + 1) = jobsOfTrip rest k := rfl

/-- A destination belongs to the first trip. -/
theorem jobsOfTrip_destination (job : Nat) (rest : List Stop) (k : Nat) :
    jobsOfTrip (.destination job :: rest) k =
      if k = 0 then job :: jobsOfTrip rest 0 else jobsOfTrip rest k := by
  obtain ⟨lead, rfl | ⟨b, later, rfl⟩⟩ := exists_lead rest
  · simp only [jobsOfTrip, closedTrips, openJobs, tripsOf, tripsOf_destinations]
    cases k with
    | zero => rfl
    | succ k => rfl
  · simp only [jobsOfTrip, closedTrips, openJobs, tripsOf, tripsOf_lead]
    cases k with
    | zero => rfl
    | succ k => rfl

/-- Behind some stops the trip under way goes on. -/
theorem jobsOfTrip_append (front rest : List Stop) :
    jobsOfTrip (front ++ rest) (basesIn front) = openJobs front ++ jobsOfTrip rest 0 := by
  have behind : ((closedTrips front).map (·.jobs)).length = basesIn front := by simp
  rw [jobsOfTrip, closedTrips_append, openJobs_append, List.map_append, List.append_assoc,
    List.getElem?_append_right (Nat.le_of_eq behind), behind, Nat.sub_self]
  obtain ⟨lead, rfl | ⟨b, later, rfl⟩⟩ := exists_lead rest
  · simp only [jobsOfTrip, closedTrips, openJobs, tripsOf_destinations]
    rfl
  · simp only [jobsOfTrip, closedTrips, openJobs, tripsOf_lead]
    rfl

/-- A trip with a job begins with one, at the start of the route or behind a base. -/
theorem begins_of_jobsOfTrip {stops : List Stop} {k : Nat} (serves : jobsOfTrip stops k ≠ []) :
    ∃ front first rest, stops = front ++ .destination first :: rest ∧ basesIn front = k ∧
      (front = [] ∨ ∃ earlier b, front = earlier ++ [.base b]) := by
  induction stops generalizing k with
  | nil => exact absurd (jobsOfTrip_nil k) serves
  | cons stop stops inductionHypothesis =>
      cases stop with
      | destination job =>
          cases k with
          | zero => exact ⟨[], job, stops, rfl, rfl, .inl rfl⟩
          | succ k =>
              rw [jobsOfTrip_destination, if_neg (Nat.succ_ne_zero k)] at serves
              obtain ⟨front, first, rest, rfl, number, rfl | ⟨earlier, b, rfl⟩⟩ :=
                inductionHypothesis serves
              · cases number
              · exact ⟨.destination job :: (earlier ++ [.base b]), first, rest, rfl, by
                  simpa using number, .inr ⟨.destination job :: earlier, b, rfl⟩⟩
      | base c =>
          cases k with
          | zero => exact absurd (jobsOfTrip_base_zero c stops) serves
          | succ k =>
              rw [jobsOfTrip_base_succ] at serves
              obtain ⟨front, first, rest, rfl, number, begins⟩ := inductionHypothesis serves
              refine ⟨.base c :: front, first, rest, rfl, by simpa using number, .inr ?_⟩
              rcases begins with rfl | ⟨earlier, b, rfl⟩
              · exact ⟨[], c, rfl⟩
              · exact ⟨.base c :: earlier, b, rfl⟩

/-! ### Insertions -/

theorem insertIdx_between (before after : List Stop) (stop : Stop) :
    (before ++ after).insertIdx before.length stop = before ++ stop :: after := by
  induction before with
  | nil => simp
  | cons first before inductionHypothesis => simp [inductionHypothesis]

/-- The trip that takes up a job is the one that the gap belongs to.  Where no base follows, the
closed trips are as before. -/
inductive TakesUp (job : Nat) (before : List Stop) (old new : List Trip × List Nat) : Prop where
  | openTrip (closed : new.1 = old.1) (served : new.2.Perm (job :: old.2))
      (number : old.1.length = basesIn before)
  | closedTrip (first last : List Trip) (trip joined : Trip) (was : old.1 = first ++ trip :: last)
      (is : new.1 = first ++ joined :: last) (number : first.length = basesIn before)
      (base : joined.base = trip.base) (served : joined.jobs.Perm (job :: trip.jobs))
      (tail : new.2 = old.2)

theorem takesUp_insert (job : Nat) (before after : List Stop) :
    TakesUp job before (tripsOf [] (before ++ after))
      (tripsOf [] (before ++ .destination job :: after)) := by
  have number := length_tripsOf [] before
  rw [tripsOf_append, tripsOf_append, tripsOf]
  obtain ⟨lead, rfl | ⟨b, rest, rfl⟩⟩ := exists_lead after
  · rw [tripsOf_destinations, tripsOf_destinations]
    refine .openTrip rfl ?_ (by simpa using number)
    simp only [List.append_assoc, List.singleton_append]
    exact List.perm_middle
  · rw [tripsOf_lead, tripsOf_lead]
    refine .closedTrip _ _ _ _ rfl rfl number rfl ?_ rfl
    simp only [List.append_assoc, List.singleton_append]
    exact List.perm_middle

/-- A base at the end of a route closes a trip with the jobs that no base closed. -/
theorem closedTrips_append_base (stops : List Stop) (b : Nat) :
    closedTrips (stops ++ [.base b]) = closedTrips stops ++ [⟨openJobs stops, b⟩] :=
  closedTrips_append stops [.base b]

theorem closedTrips_append_destination (stops : List Stop) (job : Nat) :
    closedTrips (stops ++ [.destination job]) = closedTrips stops := by
  rw [closedTrips_append]
  exact List.append_nil _

theorem openJobs_append_destination (stops : List Stop) (job : Nat) :
    openJobs (stops ++ [.destination job]) = openJobs stops ++ [job] :=
  openJobs_append stops [.destination job]

end Haulage

/-
Module: Haulage.Proofs.Leftover
Purpose: What is left of the stops of a route when jobs are taken out of it.  It does not matter in
  which order they are named or in how many steps they go, and the jobs that stay keep their order
  and the bases that close their trips.
Main exports: leftOf, leftOf_congr, leftOf_append, closingBase?, jobsIn_leftOf, closingBase?_leftOf,
  Plan.ruin_itineraries, eraseDups_filter
-/
import Haulage.Proofs.Reduced
import Haulage.Proofs.Revisit

namespace Haulage

open Attempt Plan

/-- The stops that are left when jobs are taken out.  If one of them was there, the bases that close
no trip go too. -/
def leftOf (given : List Nat) (stops : List Stop) : List Stop :=
  if stops.all (Stop.isOutside given) then stops
  else (splitIdleBases true (stops.filter (Stop.isOutside given))).1

/-- The base that closes the trip of a job, which is the first one behind it.  The last trip may
have none. -/
def closingBase? (job : Nat) : List Stop → Option Nat
  | [] => none
  | .destination other :: rest =>
    if other = job then rest.findSome? (·.base?) else closingBase? job rest
  | .base _ :: rest => closingBase? job rest

section

variable {given other first second : List Nat} {stops rest : List Stop} {job b : Nat}

/-! ### Jobs among stops -/

theorem isOutside_destination : Stop.isOutside given (.destination job) = true ↔ job ∉ given := by
  simp [Stop.isOutside, Stop.job?]

theorem isOutside_congr (same : ∀ job, job ∈ given ↔ job ∈ other) :
    Stop.isOutside given = Stop.isOutside other := by
  funext stop
  cases stop with
  | destination job => simp [Stop.isOutside, Stop.job?, same]
  | base b => rfl

/-- No stop has to go exactly where none of the jobs is served. -/
theorem all_isOutside :
    stops.all (Stop.isOutside given) = true ↔ ∀ job ∈ given, .destination job ∉ stops := by
  rw [List.all_eq_true]
  constructor
  · intro all job named member
    exact isOutside_destination.mp (all _ member) named
  · intro absent stop member
    cases stop with
    | base b => rfl
    | destination job => exact isOutside_destination.mpr fun named => absent job named member

theorem leftOf_of_absent (absent : ∀ job ∈ given, .destination job ∉ stops) :
    leftOf given stops = stops := if_pos (all_isOutside.mpr absent)

theorem leftOf_of_present (named : job ∈ given) (member : .destination job ∈ stops) :
    leftOf given stops = (splitIdleBases true (stops.filter (Stop.isOutside given))).1 :=
  if_neg fun all => all_isOutside.mp all job named member

/-- Only the jobs themselves matter. -/
theorem leftOf_congr (same : ∀ job, job ∈ given ↔ job ∈ other) : leftOf given = leftOf other := by
  funext stops
  rw [leftOf, leftOf, isOutside_congr same]

/-! ### What stays -/

theorem leftOf_sublist (given : List Nat) (stops : List Stop) :
    (leftOf given stops).Sublist stops := by
  unfold leftOf
  split_ifs
  · exact List.Sublist.refl stops
  · exact (splitIdleBases_sublist true _).trans List.filter_sublist

theorem jobsIn_filter (given : List Nat) (stops : List Stop) :
    jobsIn (stops.filter (Stop.isOutside given)) = (jobsIn stops).filter (· ∉ given) := by
  induction stops with
  | nil => rfl
  | cons stop rest inductionHypothesis =>
      cases stop with
      | base b => exact inductionHypothesis
      | destination job =>
          by_cases named : job ∈ given
          · have goes : ¬ Stop.isOutside given (.destination job) = true :=
              fun stays => isOutside_destination.mp stays named
            rw [List.filter_cons_of_neg goes, jobsIn_destination, inductionHypothesis,
              List.filter_cons_of_neg (by simpa using named)]
          · rw [List.filter_cons_of_pos (isOutside_destination.mpr named), jobsIn_destination,
              jobsIn_destination, inductionHypothesis,
              List.filter_cons_of_pos (by simpa using named)]

/-- The jobs that were not named stay, in their order. -/
theorem jobsIn_leftOf (given : List Nat) (stops : List Stop) :
    jobsIn (leftOf given stops) = (jobsIn stops).filter (· ∉ given) := by
  by_cases absent : ∀ job ∈ given, .destination job ∉ stops
  · rw [leftOf_of_absent absent, List.filter_eq_self.mpr]
    intro job member
    exact decide_eq_true fun named => absent job named (mem_jobsIn.mp member)
  · push Not at absent
    obtain ⟨job, named, member⟩ := absent
    rw [leftOf_of_present named member, jobsIn_splitIdleBases, jobsIn_filter]

/-! ### The bases that close trips -/

theorem findSome?_base?_filter (given : List Nat) (stops : List Stop) :
    (stops.filter (Stop.isOutside given)).findSome? (·.base?) = stops.findSome? (·.base?) := by
  induction stops with
  | nil => rfl
  | cons stop rest inductionHypothesis =>
      cases stop with
      | base b => rfl
      | destination job =>
          rw [List.filter_cons]
          split_ifs
          · exact inductionHypothesis
          · exact inductionHypothesis

theorem closingBase?_filter (stays : job ∉ given) (stops : List Stop) :
    closingBase? job (stops.filter (Stop.isOutside given)) = closingBase? job stops := by
  induction stops with
  | nil => rfl
  | cons stop rest inductionHypothesis =>
      cases stop with
      | base b => exact inductionHypothesis
      | destination other =>
          by_cases named : other ∈ given
          · have goes : ¬ Stop.isOutside given (.destination other) = true :=
              fun outside => isOutside_destination.mp outside named
            have apart : other ≠ job := fun same => stays (same ▸ named)
            rw [List.filter_cons_of_neg goes, closingBase?, if_neg apart]
            exact inductionHypothesis
          · rw [List.filter_cons_of_pos (isOutside_destination.mpr named), closingBase?,
              closingBase?, findSome?_base?_filter, inductionHypothesis]

/-- Behind a job the next base closes a trip, so it is not idle. -/
theorem findSome?_base?_splitIdleBases (stops : List Stop) :
    (splitIdleBases false stops).1.findSome? (·.base?) = stops.findSome? (·.base?) := by
  induction stops with
  | nil => rfl
  | cons stop rest inductionHypothesis =>
      cases stop with
      | base b => rfl
      | destination job => exact inductionHypothesis

theorem closingBase?_splitIdleBases (afterBase : Bool) (job : Nat) (stops : List Stop) :
    closingBase? job (splitIdleBases afterBase stops).1 = closingBase? job stops := by
  induction stops generalizing afterBase with
  | nil => rfl
  | cons stop rest inductionHypothesis =>
      cases stop with
      | base b =>
          cases afterBase with
          | true => exact inductionHypothesis true
          | false => exact inductionHypothesis true
      | destination other =>
          simp only [splitIdleBases, closingBase?, inductionHypothesis false,
            findSome?_base?_splitIdleBases]

/-- The trips of the jobs that stay are closed by the bases that closed them before. -/
theorem closingBase?_leftOf (stays : job ∉ given) (stops : List Stop) :
    closingBase? job (leftOf given stops) = closingBase? job stops := by
  unfold leftOf
  split_ifs
  · rfl
  · rw [closingBase?_splitIdleBases, closingBase?_filter stays]

theorem mem_of_closingBase? (closes : closingBase? job stops = some b) : .base b ∈ stops := by
  induction stops with
  | nil => cases closes
  | cons stop rest inductionHypothesis =>
      apply List.mem_cons_of_mem
      cases stop with
      | base c => exact inductionHypothesis closes
      | destination other =>
          rw [closingBase?] at closes
          split_ifs at closes
          · obtain ⟨stop, member, here⟩ := List.exists_of_findSome?_eq_some closes
            cases stop with
            | destination job => cases here
            | base c =>
                cases here
                exact member
          · exact inductionHypothesis closes

/-! ### In several steps -/

/-- Bases that close no trip may go before further jobs do, or only then. -/
theorem splitIdleBases_filter_splitIdleBases (given : List Nat) (stops : List Stop)
    (afterBase behind : Bool) (weaker : afterBase = true → behind = true) :
    (splitIdleBases behind ((splitIdleBases afterBase stops).1.filter (Stop.isOutside given))).1 =
      (splitIdleBases behind (stops.filter (Stop.isOutside given))).1 := by
  induction stops generalizing afterBase behind with
  | nil => rfl
  | cons stop rest inductionHypothesis =>
      cases stop with
      | base b =>
          have later := inductionHypothesis true true fun _ => rfl
          cases afterBase with
          | true =>
              rw [weaker rfl]
              exact later
          | false =>
              cases behind with
              | true => exact later
              | false => exact congrArg (Stop.base b :: ·) later
      | destination job =>
          by_cases named : job ∈ given
          · have goes : ¬ Stop.isOutside given (.destination job) = true :=
              fun outside => isOutside_destination.mp outside named
            rw [splitIdleBases, List.filter_cons_of_neg goes, List.filter_cons_of_neg goes]
            exact inductionHypothesis false behind (by simp)
          · have stays := isOutside_destination.mpr named
            rw [splitIdleBases, List.filter_cons_of_pos stays, List.filter_cons_of_pos stays]
            exact congrArg (Stop.destination job :: ·) (inductionHypothesis false false (by simp))

/-- Jobs that are taken out after others leave what all of them leave together. -/
theorem leftOf_append (first second : List Nat) (stops : List Stop) :
    leftOf second (leftOf first stops) = leftOf (first ++ second) stops := by
  by_cases absent : ∀ job ∈ first, .destination job ∉ stops
  · have same : stops.filter (Stop.isOutside first) = stops := filter_isOutside_of_notMem absent
    have all : stops.all (Stop.isOutside (first ++ second)) =
        stops.all (Stop.isOutside second) := by
      rw [Bool.eq_iff_iff, all_isOutside, all_isOutside]
      constructor
      · exact fun none job named => none job (List.mem_append_right first named)
      · exact fun none job named => (List.mem_append.mp named).elim (absent job) (none job)
    rw [leftOf_of_absent absent, leftOf, leftOf, all, filter_isOutside_append, same]
  · push Not at absent
    obtain ⟨job, named, member⟩ := absent
    rw [leftOf_of_present (List.mem_append_left second named) member,
      leftOf_of_present named member, filter_isOutside_append]
    by_cases later : ∀ job ∈ second, .destination job ∉ stops.filter (Stop.isOutside first)
    · rw [filter_isOutside_of_notMem later]
      apply leftOf_of_absent
      exact fun job among stays => later job among ((splitIdleBases_sublist true _).subset stays)
    · push Not at later
      obtain ⟨other, among, there⟩ := later
      have here : .destination other ∈
          (splitIdleBases true (stops.filter (Stop.isOutside first))).1 := by
        rw [← mem_jobsIn, jobsIn_splitIdleBases, mem_jobsIn]
        exact there
      rw [leftOf_of_present among here,
        splitIdleBases_filter_splitIdleBases _ _ true true fun _ => rfl]

end

/-! ### Removal -/

namespace Plan

variable {α : Type}

/-- What every route is left with when jobs are taken out. -/
def itinerariesLeft (given : List Nat) (plan : Plan α) : List (Nat × List Stop) :=
  plan.itineraries.map fun itinerary => (itinerary.1, leftOf given itinerary.2)

theorem getElem?_itinerariesLeft {plan : Plan α} {r vehicle : Nat} {stops : List Stop}
    (given : List Nat) (found : plan.itineraries[r]? = some (vehicle, stops)) :
    (plan.itinerariesLeft given)[r]? = some (vehicle, leftOf given stops) := by
  rw [itinerariesLeft, List.getElem?_map, found]
  rfl

section

variable [Quantity α] {plan shorter next : Plan α} {jobs bases r vehicle : Nat} {given : List Nat}
  {stops : List Stop}

omit [Quantity α] in
/-- The routes that are repaired after a removal are those that served one of the jobs. -/
theorem removeJobs_touches {removed : List (Nat × Nat)} (conserved : Conserved jobs bases plan)
    (taken : plan.removeJobs given = .ok (removed, shorter))
    (found : plan.itineraries[r]? = some (vehicle, stops)) :
    shorter.itineraries[r]? = some (vehicle, stops.filter (Stop.isOutside given)) ∧
      (r ∈ shorter.routeIds.filter (fun r => removed.any (·.2 = r)) ↔
        ∃ job ∈ given, .destination job ∈ stops) := by
  obtain ⟨itineraries, listed⟩ := removeJobs_itineraries conserved taken
  have between : shorter.itineraries[r]? =
      some (vehicle, stops.filter (Stop.isOutside given)) := by
    rw [itineraries, itinerariesWithout, List.getElem?_map, found]
    rfl
  refine ⟨between, ?_⟩
  rw [List.mem_filter, listed r stops ⟨vehicle, found⟩]
  exact and_iff_right (Visits.mem_routeIds ⟨vehicle, between⟩)

/-- Where a job goes, the bases that close no trip any more go with it. -/
theorem ruin_itineraries {p : Problem α} {listed : List Nat} (conserved : Conserved jobs bases plan)
    (done : plan.ruin p given = .ok (listed, next)) :
    next.itineraries = plan.itinerariesLeft given := by
  simp only [ruin, bind_eq_ok] at done
  rcases done with ⟨⟨removed, shorter⟩, taken, last, repaired, equal⟩
  cases equal
  obtain ⟨length, each⟩ := repairRoutes_itineraries (removeJobs_conserves conserved taken)
    (List.nodup_range.filter _) repaired
  have size : next.itineraries.length = plan.itineraries.length := by
    rw [length, (removeJobs_itineraries conserved taken).1, itinerariesWithout, List.length_map]
  apply List.ext_getElem?
  intro r
  cases found : plan.itineraries[r]? with
  | none =>
      rw [itinerariesLeft, List.getElem?_map, found, Option.map_none, List.getElem?_eq_none_iff,
        size]
      exact List.getElem?_eq_none_iff.mp found
  | some itinerary =>
      rcases itinerary with ⟨vehicle, stops⟩
      obtain ⟨between, touched⟩ := removeJobs_touches conserved taken found
      rw [getElem?_itinerariesLeft given found, each r vehicle _ between]
      split_ifs with repairs
      · obtain ⟨job, named, member⟩ := touched.mp repairs
        rw [leftOf_of_present named member]
      · have absent : ∀ job ∈ given, .destination job ∉ stops := fun job named member =>
          repairs (touched.mpr ⟨job, named, member⟩)
        rw [leftOf_of_absent absent, filter_isOutside_of_notMem absent]

end

end Plan

/-! ### Lists without duplicates -/

/-- First occurrences may be sought among some elements, or these among the first occurrences. -/
theorem eraseDups_filter (p : Nat → Bool) (xs : List Nat) :
    (xs.filter p).eraseDups = xs.eraseDups.filter p := by
  induction length : xs.length using Nat.strong_induction_on generalizing xs with
  | _ n inductionHypothesis =>
    cases xs with
    | nil => rfl
    | cons x xs =>
        have shorter : (xs.filter fun y => !y == x).length < n := by
          rw [← length, List.length_cons]
          exact Nat.lt_succ_of_le (List.length_filter_le _ _)
        have later := inductionHypothesis _ shorter _ rfl
        have comm : (xs.filter fun y => !y == x).filter p =
            (xs.filter p).filter fun y => !y == x := by
          rw [List.filter_filter, List.filter_filter]
          simp only [Bool.and_comm]
        rw [comm] at later
        rw [List.eraseDups_cons]
        cases keeps : p x with
        | true =>
            rw [List.filter_cons_of_pos keeps, List.filter_cons_of_pos keeps, List.eraseDups_cons,
              later]
        | false =>
            have absent : (xs.filter p).filter (fun y => !y == x) = xs.filter p := by
              apply List.filter_eq_self.mpr
              intro y member
              have apart : y ≠ x := by
                rintro rfl
                simp [keeps] at member
              simpa using apart
            rw [List.filter_cons_of_neg (by simp [keeps]),
              List.filter_cons_of_neg (by simp [keeps]), ← later, absent]

end Haulage

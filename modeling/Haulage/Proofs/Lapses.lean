/-
Module: Haulage.Proofs.Lapses
Purpose: What a computation on a valid problem may still run into.  A time leaves the calendar, a
  travel time is no duration, or a table has no entry because its rows are too short.  Whatever else
  is looked up is there.
Main exports: Problem.Linked, ProblemParts.linked_of_build, Problem.Excuses, Problem.Yields,
  Problem.yields_travelTime, Problem.yields_travelCost, Route.yields_reschedule,
  RouteEntry.yields_derive
-/
import Haulage.Proofs.Derived

namespace Haulage

variable {α : Type} [Quantity α]

/-! ### Valid problems -/

/-- A place that the problem has, if it is one at all. -/
def Problem.HasPlace (p : Problem α) (place : Option Nat) : Prop :=
  ∀ location, place = some location → location < p.points.size

/-- The references between the parts of a problem all lead somewhere. -/
structure Problem.Linked (p : Problem α) : Prop where
  destinations : ∀ d ∈ p.destinations, d.location < p.points.size
  sites : ∀ location ∈ p.unloadLocations, location < p.points.size
  profiles : ∀ v ∈ p.vehicles, v.profile < p.profiles.size
  depots : ∀ v ∈ p.vehicles, p.HasPlace v.depot
  tables : ∀ profile ∈ p.profiles, profile.table.size = p.points.size
  costs : p.depotCosts.size = p.points.size

namespace ProblemParts

theorem length_depotCosts {locations : Nat} {vehicles : List (Vehicle α)}
    {profiles : Array (Profile α)} {costs : List α}
    (done : depotCosts locations vehicles profiles = .ok costs) : costs.length = locations := by
  unfold depotCosts at done
  split at done
  · cases done
    exact List.length_replicate
  · exact (length_of_mapM_eq_ok done).trans List.length_range

omit [Quantity α] in
/-- Where nothing is found to be wrong, all references lead somewhere. -/
theorem firstError?_eq_none {locations : Nat} {destinations : List (Destination α)}
    {vehicles : List (Vehicle α)} {profiles : List (Profile α)} {sites : List (UnloadSite α)}
    (sound : firstError? locations destinations vehicles profiles sites = none) :
    (∀ d ∈ destinations, d.location < locations) ∧ (∀ s ∈ sites, s.location < locations) ∧
      (∀ v ∈ vehicles, v.profile < profiles.length ∧
        ∀ depot, v.depot = some depot → depot < locations) ∧
      ∀ profile ∈ profiles, profile.table.size = locations := by
  simp only [firstError?, Option.orElse_eq_orElse, Option.orElse_eq_or, Option.or_eq_none_iff,
    Option.map_eq_none_iff, List.find?_eq_none, List.findSome?_eq_none_iff, decide_eq_true_eq,
    Nat.not_le, ne_eq, not_not] at sound
  obtain ⟨served, sited, driven, sized⟩ := sound
  refine ⟨served, sited, fun v member => ?_, sized⟩
  have drives := driven v member
  split at drives
  · cases drives
  · rename_i profiled
    split at drives
    · cases drives
    · rename_i inside
      refine ⟨Nat.not_le.mp profiled, fun depot lies => ?_⟩
      by_contra outside
      rw [lies] at inside
      exact inside (decide_eq_true (Nat.not_lt.mp outside))

/-- What the builder accepts is linked. -/
theorem linked_of_build {parts : ProblemParts α} {p : Problem α} (built : parts.build = .ok p) :
    p.Linked := by
  unfold build at built
  split at built
  · cases built
  · cases built
  · cases built
  · cases built
  · dsimp only at built
    split at built
    · cases built
    · rename_i sound
      simp only [bind_eq_ok, mapError_eq_ok] at built
      rcases built with ⟨costs, computed, leg, _, equal⟩
      cases equal
      obtain ⟨served, sited, driven, sized⟩ := firstError?_eq_none sound
      refine ⟨?_, ?_, ?_, ?_, ?_, ?_⟩
      · simpa using served
      · simpa [Problem.unloadLocations] using sited
      · intro v member
        exact (driven v (List.mem_toArray.mp member)).1
      · intro v member
        exact (driven v (List.mem_toArray.mp member)).2
      · simpa using sized
      · exact length_depotCosts computed

end ProblemParts

/-! ### What is excused -/

/-- A table with an entry for each pair of locations, for travel times as for costs. -/
structure TravelTable.Whole (t : TravelTable α) : Prop where
  times : t.size * t.size ≤ t.times.size
  costs : t.size * t.size ≤ t.costs.size

/-- An entry that is not found would be among the first `size * size`. -/
theorem TravelTable.entry_eq_error {t : TravelTable α} {values : Array α} {origin target : Nat}
    {e : Fault} (leaves : origin < t.size) (arrives : target < t.size)
    (failed : t.entry values origin target = .error e) :
    e = .outOfTable ∧ values.size < t.size * t.size := by
  unfold entry at failed
  split at failed
  · cases failed
  · split at failed
    · cases failed
    · rename_i absent
      cases failed
      refine ⟨rfl, ?_⟩
      have beyond := Array.getElem?_eq_none_iff.mp absent
      have row : (origin + 1) * t.size ≤ t.size * t.size := Nat.mul_le_mul_right _ leaves
      rw [Nat.add_mul] at row
      omega

/-- A failure that a computation on a valid problem may run into. -/
inductive Problem.Excuses (p : Problem α) : Failure → Prop
  | beyondCalendar : Excuses p (.fault .beyondCalendar)
  | unusableTravelTime : Excuses p (.fault .unusableTravelTime)
  | missingEntry (profile : Profile α) (known : profile ∈ p.profiles)
      (short : ¬ profile.table.Whole) : Excuses p (.fault .outOfTable)

/-- A computation answers with `Q`, or it fails in a way that is excused. -/
structure Problem.Yields {β : Type} (p : Problem α) (Q : β → Prop) (x : Except Failure β) :
    Prop where
  answers : ∀ b, x = .ok b → Q b
  fails : ∀ e, x = .error e → p.Excuses e

namespace Problem

variable {p : Problem α} {β γ : Type} {Q : β → Prop} {R : γ → Prop}

section

omit [Quantity α]

theorem Excuses.isFault {e : Failure} (excused : p.Excuses e) : ∃ f, e = .fault f := by
  cases excused with
  | beyondCalendar => exact ⟨_, rfl⟩
  | unusableTravelTime => exact ⟨_, rfl⟩
  | missingEntry => exact ⟨_, rfl⟩

theorem Excuses.not_refused {e : Failure} (excused : p.Excuses e) (reason : Refusal) :
    e ≠ .refused reason := by
  obtain ⟨f, rfl⟩ := excused.isFault
  intro equal
  cases equal

namespace Yields

theorem ok {b : β} (holds : Q b) : p.Yields Q (.ok b) := by
  constructor
  · intro c equal
    cases equal
    exact holds
  · intro e failed
    cases failed

theorem error {e : Failure} (excused : p.Excuses e) : p.Yields Q (.error e) := by
  constructor
  · intro b answer
    cases answer
  · intro other equal
    cases equal
    exact excused

theorem of_answer {x : Except Failure β} {b : β} (answer : x = .ok b) (holds : Q b) :
    p.Yields Q x := answer ▸ ok holds

theorem bind {x : Except Failure β} {f : β → Except Failure γ} (first : p.Yields Q x)
    (next : ∀ b, x = .ok b → Q b → p.Yields R (f b)) : p.Yields R (x >>= f) := by
  cases x with
  | ok b => exact next b rfl (first.answers b rfl)
  | error e => exact error (first.fails e rfl)

theorem foldlM {f : γ → β → Except Failure γ} {xs : List β}
    (step : ∀ x ∈ xs, ∀ s, R s → p.Yields R (f s x)) {s : γ} (start : R s) :
    p.Yields R (xs.foldlM f s) := by
  induction xs generalizing s with
  | nil => exact ok start
  | cons x xs inductionHypothesis =>
      rw [List.foldlM_cons]
      apply (step x List.mem_cons_self s start).bind
      intro t _ holds
      exact inductionHypothesis (fun y member => step y (List.mem_cons_of_mem x member)) holds

theorem mapM {f : β → Except Failure γ} {xs : List β} (each : ∀ x ∈ xs, p.Yields R (f x)) :
    p.Yields (fun ys => ∀ y ∈ ys, R y) (xs.mapM f) := by
  constructor
  · intro ys done y member
    obtain ⟨x, among, answer⟩ := mem_of_mapM_eq_ok done member
    exact (each x among).answers y answer
  · intro e failed
    obtain ⟨x, among, fails⟩ := exists_of_mapM_eq_error failed
    exact (each x among).fails e fails

end Yields

/-! ### Looking up -/

theorem hasPlace_none : p.HasPlace none := by
  intro location equal
  cases equal

theorem hasPlace_some {location : Nat} (inside : location < p.points.size) :
    p.HasPlace (some location) := by
  intro other equal
  cases equal
  exact inside

theorem HasPlace.orElse {place other : Option Nat} (first : p.HasPlace place)
    (second : p.HasPlace other) : p.HasPlace (place <|> other) := by
  cases place with
  | none => exact second
  | some location => exact first

theorem Linked.endLocation (linked : p.Linked) {v : Vehicle α} (known : v ∈ p.vehicles) :
    p.HasPlace v.endLocation := by
  unfold Vehicle.endLocation
  split
  · exact linked.depots v known
  · exact hasPlace_none

theorem yields_destination (linked : p.Linked) {job : Nat} (known : job < p.destinations.size) :
    p.Yields (fun d => d.location < p.points.size) (p.destination job) := by
  have found : p.destination job = .ok p.destinations[job] :=
    orOutOfTable_getElem known
  exact .of_answer found (linked.destinations _ (Array.getElem_mem known))

theorem yields_vehicle {v : Nat} (known : v < p.vehicles.size) :
    p.Yields (· ∈ p.vehicles) (p.vehicle v) :=
  .of_answer (orOutOfTable_getElem known) (Array.getElem_mem known)

theorem yields_lookUp (linked : p.Linked) {v : Vehicle α} {f : TravelTable α → Except Fault β}
    (known : v ∈ p.vehicles) (each : ∀ profile ∈ p.profiles, ∀ e, f profile.table = .error e →
      p.Excuses (.fault e)) : p.Yields (fun _ => True) (p.lookUp v f) := by
  have inside := linked.profiles v known
  simp only [lookUp, Array.getElem?_eq_getElem inside]
  cases answer : f p.profiles[v.profile].table with
  | ok b => exact .ok trivial
  | error e => exact .error (each _ (Array.getElem_mem inside) e answer)

end

/-! ### Travel -/

/-- A table has all entries that it should, or it is not whole. -/
theorem entry_excused {profile : Profile α} {values : Array α} {origin target : Nat} {e : Fault}
    (linked : p.Linked) (known : profile ∈ p.profiles) (leaves : origin < p.points.size)
    (arrives : target < p.points.size)
    (long : profile.table.Whole → profile.table.size * profile.table.size ≤ values.size)
    (failed : profile.table.entry values origin target = .error e) : p.Excuses (.fault e) := by
  rw [← linked.tables profile known] at leaves arrives
  obtain ⟨rfl, short⟩ := TravelTable.entry_eq_error leaves arrives failed
  exact .missingEntry profile known fun whole => Nat.not_le.mpr short (long whole)

variable {v : Vehicle α} {origin target : Option Nat}

theorem yields_travelCost (linked : p.Linked) (known : v ∈ p.vehicles) (leaves : p.HasPlace origin)
    (arrives : p.HasPlace target) :
    p.Yields (fun _ => True) (p.travelCost v origin target) := by
  unfold travelCost
  split
  · rename_i a b
    apply yields_lookUp linked known
    intro profile among e failed
    exact entry_excused linked among (leaves a rfl) (arrives b rfl) (·.costs) failed
  · exact .ok trivial

theorem yields_travelTime (linked : p.Linked) (known : v ∈ p.vehicles) (leaves : p.HasPlace origin)
    (arrives : p.HasPlace target) :
    p.Yields (fun _ => True) (p.travelTime v origin target) := by
  unfold travelTime
  split
  · rename_i a b
    apply yields_lookUp linked known
    intro profile among e failed
    unfold TravelTable.time at failed
    split at failed
    · cases failed
    · cases looked : profile.table.entry profile.table.times a b with
      | ok value =>
          rw [looked] at failed
          simp only [Except.bind, Duration.ofTravelTime] at failed
          split at failed
          · cases failed
            exact .unusableTravelTime
          · cases failed
      | error fault =>
          rw [looked] at failed
          cases failed
          exact entry_excused linked among (leaves a rfl) (arrives b rfl) (·.times) looked
  · exact .ok trivial

omit [Quantity α] in
theorem yields_after (t : Instant) (d : Duration) : p.Yields (fun _ => True) (t.after d) := by
  unfold Instant.after
  dsimp only
  split
  · exact .ok trivial
  · exact .error .beyondCalendar

theorem yields_arrival (linked : p.Linked) (known : v ∈ p.vehicles) (leaves : p.HasPlace origin)
    (arrives : p.HasPlace target) (departure : Instant) :
    p.Yields (fun _ => True) (p.arrival v origin target departure) :=
  (yields_travelTime linked known leaves arrives).bind fun d _ _ => yields_after departure d

theorem yields_detourCost (linked : p.Linked) (known : v ∈ p.vehicles) (leaves : p.HasPlace origin)
    {location : Nat} (passes : location < p.points.size) (arrives : p.HasPlace target) :
    p.Yields (fun _ => True) (p.detourCost v origin location target) := by
  apply (yields_travelCost linked known leaves arrives).bind
  intro direct _ _
  apply (yields_travelCost linked known leaves (hasPlace_some passes)).bind
  intro access _ _
  apply (yields_travelCost linked known (hasPlace_some passes) arrives).bind
  intro egress _ _
  exact .ok trivial

/-! ### Stops -/

/-- A stop that problem and pool know, at a place that the problem has. -/
def HasStop (p : Problem α) (pool : BasePool) : Stop → Prop
  | .destination job => job < p.destinations.size
  | .base b => ∃ base, pool.base b = .ok base ∧ p.HasPlace base.location

variable {pool : BasePool} {stop : Stop} {stops : List Stop}

omit [Quantity α] in
/-- It is known where a known stop is. -/
theorem HasStop.stopLocation (known : p.HasStop pool stop) (linked : p.Linked) :
    ∃ place, p.stopLocation pool stop = .ok place ∧ p.HasPlace place := by
  cases stop with
  | destination job =>
      have found : p.destination job = .ok p.destinations[job] :=
        orOutOfTable_getElem known
      refine ⟨some p.destinations[job].location, by rw [Problem.stopLocation, found]; rfl, ?_⟩
      exact hasPlace_some (linked.destinations _ (Array.getElem_mem known))
  | base b =>
      obtain ⟨base, found, lies⟩ := known
      exact ⟨base.location, by rw [Problem.stopLocation, found]; rfl, lies⟩

omit [Quantity α] in
theorem yields_stopLocation (linked : p.Linked) (known : p.HasStop pool stop) :
    p.Yields p.HasPlace (p.stopLocation pool stop) := by
  obtain ⟨place, answer, lies⟩ := known.stopLocation linked
  exact .of_answer answer lies

omit [Quantity α] in
theorem yields_endOfStop (linked : p.Linked) (known : p.HasStop pool stop) (arrival : Instant) :
    p.Yields (fun _ => True) (p.endOfStop pool stop arrival) := by
  cases stop with
  | destination job =>
      apply (yields_destination linked known).bind
      intro d _ _
      exact yields_after _ _
  | base b =>
      obtain ⟨base, found, _⟩ := known
      rw [endOfStop, found]
      exact yields_after _ _

omit [Quantity α] in
theorem yields_waitingAt (linked : p.Linked) (known : p.HasStop pool stop) (arrival : Instant) :
    p.Yields (fun _ => True) (p.waitingAt stop arrival) := by
  cases stop with
  | destination job =>
      apply (yields_destination linked known).bind
      intro d _ _
      exact .ok trivial
  | base b => exact .ok trivial

end Problem

open Problem

variable {p : Problem α} {pool : BasePool} {v : Vehicle α} {route : Route} {stops : List Stop}

/-! ### Refreshing -/

/-- A vehicle that travels through known stops ends up at a known place. -/
theorem Route.yields_visitsFrom (linked : p.Linked) (known : v ∈ p.vehicles)
    (all : ∀ stop ∈ stops, p.HasStop pool stop) {place : Option Nat} (lies : p.HasPlace place)
    (departure : Instant) :
    p.Yields (fun visited => p.HasPlace visited.2.1)
      (visitsFrom p pool v place departure stops) := by
  induction stops generalizing place departure with
  | nil => exact .ok lies
  | cons stop rest inductionHypothesis =>
      have here := all stop List.mem_cons_self
      apply (yields_stopLocation linked here).bind
      intro at? _ there
      have arrives := there.orElse lies
      apply (yields_arrival linked known lies arrives departure).bind
      intro arrival _ _
      apply (yields_endOfStop linked here arrival).bind
      intro leaving _ _
      apply (yields_waitingAt linked here arrival).bind
      intro waiting _ _
      have later := inductionHypothesis (fun stop member => all stop (List.mem_cons_of_mem _ member))
        arrives leaving
      apply later.bind
      intro visited _ ends
      exact .ok ends

omit [Quantity α] in
theorem Route.yields_departure (known : route.vehicle < p.vehicles.size) :
    p.Yields (fun _ => True) (route.departure p) := by
  unfold departure
  split
  · exact .ok trivial
  · apply (yields_vehicle known).bind
    intro v _ _
    exact .ok trivial

theorem Route.yields_reschedule (linked : p.Linked) (known : route.vehicle < p.vehicles.size)
    (all : ∀ stop ∈ route.stops, p.HasStop pool stop) :
    p.Yields (fun _ => True) (route.reschedule p pool) := by
  apply (yields_vehicle known).bind
  intro v _ drives
  apply (Route.yields_departure known).bind
  intro departure _ _
  apply (Route.yields_visitsFrom linked drives all (linked.depots v drives) departure).bind
  rintro ⟨visits, place, leaving⟩ _ ends
  apply (yields_arrival linked drives ends (linked.endLocation drives) leaving).bind
  intro arrival _ _
  exact .ok trivial

theorem RouteEntry.yields_derive (linked : p.Linked) (known : route.vehicle < p.vehicles.size)
    (all : ∀ stop ∈ route.stops, p.HasStop pool stop)
    (long : route.visits.length = route.stops.length) :
    p.Yields (fun _ => True) (derive p pool route) := by
  have driven : p.vehicle route.vehicle = .ok p.vehicles[route.vehicle] :=
    orOutOfTable_getElem known
  have located (stop : Stop) (member : stop ∈ route.stops) :
      ∃ here, p.stopLocation pool stop = .ok here := by
    obtain ⟨here, lies, _⟩ := (all stop member).stopLocation linked
    exact ⟨here, lies⟩
  obtain ⟨entry, derived⟩ := RouteEntry.derive_answers driven located long
  exact .of_answer derived trivial

end Haulage

/-
Module: Haulage.Proofs.Gap
Purpose: The gaps that a walk along a route comes to.  Each lies between a first part of the stops
  and the rest, and its trip is the number of bases in the first part.  The vehicle leaves the first
  part where and when it does on its route.
Main exports: Gap.Between, Route.visitsFrom_append, Gap.Met, Walk.gap_met, Walk.scan_along,
  Walk.scan_keeps, Walk.scan_map_along, Walk.tailGap_met
-/
import Mathlib.Data.List.Induction
import Haulage.Insertion.Gap
import Haulage.Proofs.Attempt
import Haulage.Proofs.Trips

namespace Haulage

variable {α : Type} [Quantity α]

/-- A gap with the given stops before it and after it. -/
structure Gap.Between (before after : List Stop) (gap : Gap) : Prop where
  position_eq : gap.position = before.length
  previous_eq : gap.previous = (before.getLast?.map Waypoint.at).getD .start
  next_eq : gap.next = (after.head?.map Waypoint.at).getD .finish
  trip_eq : gap.trip = basesIn before

/-- The stop before a gap is the one that the route has there. -/
theorem Gap.Between.before_eq {gap : Gap} {route : Route} {before after : List Stop}
    (between : gap.Between before after) (split : route.stops = before ++ after) :
    route.before before.length = .ok gap.previous := by
  rw [between.previous_eq]
  cases before using List.reverseRecOn with
  | nil => rfl
  | append_singleton earlier stop => simp [Route.before, split, bind, Except.bind]

/-- A stop that is no base and not the beginning of a route is a job. -/
theorem Gap.Between.exists_job {gap : Gap} {before after : List Stop}
    (between : gap.Between before after) (started : gap.previous ≠ .start)
    (apart : gap.previous.isBase = false) :
    ∃ earlier job, before = earlier ++ [.destination job] := by
  rcases List.eq_nil_or_concat before with rfl | ⟨earlier, stop, rfl⟩
  · exact absurd between.previous_eq started
  · cases stop with
    | destination job => exact ⟨earlier, job, by simp⟩
    | base c =>
        rw [between.previous_eq] at apart
        simp [Waypoint.isBase] at apart

/-! ### Gaps as the vehicle comes to them -/

section

variable {p : Problem α} {pool : BasePool} {v : Vehicle α} {departure : Instant}

/-- The times at the last of some stops follow from where and when the stops before them are left. -/
theorem Route.visitsFrom_append {v : Vehicle α} {place : Option Nat} {departure : Instant}
    {front back : List Stop} {visits : List Visit} {last : Option Nat × Instant} :
    Route.visitsFrom p pool v place departure (front ++ back) = .ok (visits, last) ↔
      ∃ early here leaving late,
        Route.visitsFrom p pool v place departure front = .ok (early, here, leaving) ∧
        Route.visitsFrom p pool v here leaving back = .ok (late, last) ∧ visits = early ++ late := by
  induction front generalizing place departure visits with
  | nil =>
      constructor
      · intro done
        exact ⟨[], place, departure, visits, rfl, done, rfl⟩
      · rintro ⟨early, here, leaving, late, first, second, rfl⟩
        cases first
        exact second
  | cons stop front inductionHypothesis =>
      simp only [List.cons_append, Route.visitsFrom, bind_eq_ok]
      constructor
      · rintro ⟨location, lies, arrival, arrives, leaving, leaves, waiting, waits, ⟨later, _⟩, tail,
          equal⟩
        cases equal
        obtain ⟨early, here, departing, late, head, behind, rfl⟩ := inductionHypothesis.mp tail
        exact ⟨⟨arrival, leaving, waiting⟩ :: early, here, departing, late,
          ⟨location, lies, arrival, arrives, leaving, leaves, waiting, waits, _, head, rfl⟩, behind,
          rfl⟩
      · rintro ⟨_, here, departing, late, ⟨location, lies, arrival, arrives, leaving, leaves, waiting,
          waits, ⟨early, _⟩, head, equal⟩, behind, rfl⟩
        cases equal
        exact ⟨location, lies, arrival, arrives, leaving, leaves, waiting, waits, (early ++ late, last),
          inductionHypothesis.mpr ⟨early, here, departing, late, head, behind, rfl⟩, rfl⟩

/-- The times at a stop that is reached and left. -/
theorem Route.visitsFrom_singleton {stop : Stop} {place lies : Option Nat}
    {arrival leaving : Instant} (there : p.stopLocation pool stop = .ok lies)
    (arrives : p.arrival v place (lies <|> place) departure = .ok arrival)
    (leaves : p.endOfStop pool stop arrival = .ok leaving) :
    ∃ visits, Route.visitsFrom p pool v place departure [stop] =
      .ok (visits, lies <|> place, leaving) := by
  obtain ⟨waiting, waits⟩ : ∃ waiting, p.waitingAt stop arrival = .ok waiting := by
    cases stop with
    | base b => exact ⟨.zero, rfl⟩
    | destination job =>
        simp only [Problem.stopLocation, bind_eq_ok] at there
        rcases there with ⟨d, served, _⟩
        rw [Problem.waitingAt, served]
        exact ⟨_, rfl⟩
  refine ⟨[⟨arrival, leaving, waiting⟩], ?_⟩
  simp only [Route.visitsFrom, bind_eq_ok]
  exact ⟨lies, there, arrival, arrives, leaving, leaves, waiting, waits, _, rfl, rfl⟩

end

/-- Where a vehicle heads from some place: for the first of the stops ahead, or for the end.  A base
without a location counts as lying at the place. -/
def Problem.headsFor (p : Problem α) (pool : BasePool) (v : Vehicle α) (place : Option Nat) :
    List Stop → Except Failure (Option Nat)
  | [] => .ok v.endLocation
  | stop :: _ => do .ok ((← p.stopLocation pool stop) <|> place)

/-- A gap as the vehicle comes to it that has served the stops before it. -/
structure Gap.Met (p : Problem α) (pool : BasePool) (v : Vehicle α) (departure : Instant)
    (before after : List Stop) (gap : Gap) : Prop extends Gap.Between before after gap where
  comes : ∃ visits, Route.visitsFrom p pool v v.depot departure before =
    .ok (visits, gap.previousLocation, gap.previousDeparture)
  heads : p.headsFor pool v gap.previousLocation after = .ok gap.nextLocation

/-- Behind the last gap the vehicle goes home, if it does at all. -/
theorem Gap.Met.nextLocation_eq {p : Problem α} {pool : BasePool} {v : Vehicle α}
    {departure : Instant} {before : List Stop} {gap : Gap}
    (met : gap.Met p pool v departure before []) : gap.nextLocation = v.endLocation :=
  (Except.ok.inj met.heads).symm

/-- There is one gap behind given stops. -/
theorem Gap.Met.unique {p : Problem α} {pool : BasePool} {v : Vehicle α} {departure : Instant}
    {before after : List Stop} {gap other : Gap} (met : gap.Met p pool v departure before after)
    (again : other.Met p pool v departure before after) : gap = other := by
  rcases met with ⟨⟨position, previous, next, trip⟩, ⟨_, comes⟩, heads⟩
  rcases again with ⟨⟨positionToo, previousToo, nextToo, tripToo⟩, ⟨_, comesToo⟩, headsToo⟩
  obtain ⟨_, place, leaving⟩ : _ ∧ _ ∧ _ := by
    simpa only [Except.ok.injEq, Prod.mk.injEq] using comes.symm.trans comesToo
  rw [← place] at headsToo
  have ahead := Except.ok.inj (heads.symm.trans headsToo)
  cases gap
  cases other
  simp only [Gap.mk.injEq]
  exact ⟨position.trans positionToo.symm, previous.trans previousToo.symm, next.trans nextToo.symm,
    place, ahead, leaving, trip.trans tripToo.symm⟩

namespace Walk

/-- A walk that has passed the given stops. -/
structure Passed (p : Problem α) (pool : BasePool) (v : Vehicle α) (departure : Instant)
    (before : List Stop) (w : Walk) : Prop where
  position_eq : w.position = before.length
  previous_eq : w.previous = (before.getLast?.map Waypoint.at).getD .start
  trip_eq : w.trip = basesIn before
  comes : ∃ visits, Route.visitsFrom p pool v v.depot departure before =
    .ok (visits, w.place, w.departure)

section

variable {p : Problem α} {pool : BasePool} {v : Vehicle α} {departure : Instant}
  {before stops : List Stop} {w : Walk} {gap : Gap}

theorem passed_start (p : Problem α) (pool : BasePool) (v : Vehicle α) (departure : Instant) :
    Passed p pool v departure [] (start v departure) :=
  ⟨rfl, rfl, rfl, [], rfl⟩

theorem lastGap_met (passed : Passed p pool v departure before w) :
    (w.lastGap v).Met p pool v departure before [] :=
  ⟨⟨passed.position_eq, passed.previous_eq, rfl, passed.trip_eq⟩, passed.comes, rfl⟩

/-- Passing a stop comes to the gap before it and goes beyond it. -/
theorem pass_eq_ok {further : Walk} {stop : Stop} (rest : List Stop)
    (passed : Passed p pool v departure before w)
    (done : w.pass p pool v stop = .ok (gap, further)) :
    gap.Met p pool v departure before (stop :: rest) ∧
      Passed p pool v departure (before ++ [stop]) further := by
  simp only [pass, bind_eq_ok] at done
  rcases done with ⟨location, lies, arrival, arrives, leaving, leaves, equal⟩
  cases equal
  constructor
  · refine ⟨⟨passed.position_eq, passed.previous_eq, rfl, passed.trip_eq⟩, passed.comes, ?_⟩
    rw [Problem.headsFor, lies]
    rfl
  · refine ⟨?_, ?_, ?_, ?_⟩
    · simp [passed.position_eq]
    · simp
    · cases stop with
      | destination job => simp [passed.trip_eq]
      | base b => simp [passed.trip_eq]
    · rcases passed.comes with ⟨visits, comes⟩
      obtain ⟨last, reached⟩ := Route.visitsFrom_singleton lies arrives leaves
      exact ⟨visits ++ last, Route.visitsFrom_append.mpr ⟨_, _, _, _, comes, reached, rfl⟩⟩

/-- A gap of a route lies behind as many stops as there are gaps before it. -/
theorem gap_met {gaps : List Gap} {i : Nat}
    (walked : Walk.gaps p pool v (.start v departure) stops = .ok gaps) (found : gaps[i]? = some gap) :
    ∃ before after, stops = before ++ after ∧ before.length = i ∧
      gap.Met p pool v departure before after := by
  suffices along : ∀ rest before w gaps i, stops = before ++ rest →
      Passed p pool v departure before w → Walk.gaps p pool v w rest = .ok gaps →
      gaps[i]? = some gap → ∃ front after, stops = front ++ after ∧
        front.length = before.length + i ∧ gap.Met p pool v departure front after by
    obtain ⟨front, after, split, length, met⟩ :=
      along stops [] _ gaps i rfl (passed_start p pool v departure) walked found
    exact ⟨front, after, split, by simpa using length, met⟩
  intro rest
  induction rest with
  | nil =>
      intro before w gaps i split passed walked found
      cases walked
      cases i with
      | zero =>
          cases found
          exact ⟨before, [], split, rfl, lastGap_met passed⟩
      | succ i => cases found
  | cons stop rest inductionHypothesis =>
      intro before w gaps i split passed walked found
      simp only [Walk.gaps, bind_eq_ok] at walked
      rcases walked with ⟨⟨first, further⟩, moved, later, others, equal⟩
      cases equal
      obtain ⟨met, beyond⟩ := pass_eq_ok rest passed moved
      cases i with
      | zero =>
          cases found
          exact ⟨before, stop :: rest, split, rfl, met⟩
      | succ i =>
          obtain ⟨front, after, parts, length, there⟩ :=
            inductionHypothesis (before ++ [stop]) further later i (by simp [split]) beyond others
              found
          refine ⟨front, after, parts, ?_, there⟩
          rw [length, List.length_append, List.length_singleton]
          omega

/-- A route whose times are known has a gap in front of each stop and one at its end. -/
theorem gaps_answers {visited : List Visit × Option Nat × Instant}
    (done : Route.visitsFrom p pool v w.place w.departure stops = .ok visited) :
    ∃ gaps, Walk.gaps p pool v w stops = .ok gaps ∧ gaps.length = stops.length + 1 := by
  induction stops generalizing w visited with
  | nil => exact ⟨[w.lastGap v], rfl, rfl⟩
  | cons stop rest inductionHypothesis =>
      simp only [Route.visitsFrom, bind_eq_ok] at done
      rcases done with ⟨lies, there, arrival, arrives, leaving, leaves, _, _, _, later, _⟩
      let further : Walk :=
        { position := w.position + 1, previous := .at stop, place := lies <|> w.place,
          departure := leaving, trip := if stop.isBase then w.trip + 1 else w.trip }
      have passes : w.pass p pool v stop = .ok (w.gap (.at stop) (lies <|> w.place), further) := by
        simp only [pass, bind_eq_ok]
        exact ⟨lies, there, arrival, arrives, leaving, leaves, rfl⟩
      obtain ⟨gaps, others, length⟩ := inductionHypothesis (w := further) later
      refine ⟨w.gap (.at stop) (lies <|> w.place) :: gaps, ?_, ?_⟩
      · simp only [Walk.gaps, bind_eq_ok]
        exact ⟨_, passes, gaps, others, rfl⟩
      · rw [List.length_cons, length, List.length_cons]

/-- The gap behind some stops is among the gaps of a route whose times are known. -/
theorem gaps_of_met {after : List Stop} {visited : List Visit × Option Nat × Instant}
    (done : Route.visitsFrom p pool v v.depot departure (before ++ after) = .ok visited)
    (met : gap.Met p pool v departure before after) :
    ∃ gaps, Walk.gaps p pool v (.start v departure) (before ++ after) = .ok gaps ∧
      gaps[before.length]? = some gap := by
  obtain ⟨gaps, walked, length⟩ := gaps_answers (w := .start v departure) done
  have inside : before.length < gaps.length := by
    rw [length, List.length_append]
    omega
  have found : gaps[before.length]? = some gaps[before.length] := List.getElem?_eq_getElem inside
  obtain ⟨front, behind, split, same, metToo⟩ := gap_met walked found
  obtain ⟨rfl, rfl⟩ := List.append_inj split same.symm
  exact ⟨gaps, walked, met.unique metToo ▸ found⟩

end

section

variable {σ : Type} {p : Problem α} {pool : BasePool} {v : Vehicle α}
  {look : σ → Gap → Except Failure (ForInStep σ)} {stops : List Stop} {departure : Instant}
  {s t : σ}

/-- What holds of the stops passed is carried from gap to gap, until a look ends the scan or the last
gap does. -/
theorem scan_along (I : List Stop → σ → Prop) (Q : σ → Prop)
    (passes : ∀ before stop after gap s t, stops = before ++ stop :: after →
      gap.Met p pool v departure before (stop :: after) → I before s → look s gap = .ok (.yield t) →
      I (before ++ [stop]) t)
    (ends : ∀ before after gap s step, stops = before ++ after →
      gap.Met p pool v departure before after → I before s → look s gap = .ok step →
      after = [] ∨ step = .done step.value → Q step.value)
    (begins : I [] s) (done : scan p pool v look (.start v departure) s stops = .ok t) : Q t := by
  suffices along : ∀ rest before w s, stops = before ++ rest →
      Passed p pool v departure before w → I before s →
      scan p pool v look w s rest = .ok t → Q t from
    along stops [] _ s rfl (passed_start p pool v departure) begins done
  intro rest
  induction rest with
  | nil =>
      intro before w s split passed holds done
      simp only [scan, bind_eq_ok] at done
      rcases done with ⟨step, looked, finished⟩
      have kept := ends before [] _ s step split (lastGap_met passed) holds looked (.inl rfl)
      cases step with
      | done u =>
          cases finished
          exact kept
      | yield u =>
          cases finished
          exact kept
  | cons stop rest inductionHypothesis =>
      intro before w s split passed holds done
      simp only [scan, bind_eq_ok] at done
      rcases done with ⟨⟨gap, further⟩, moved, step, looked, finished⟩
      obtain ⟨between, beyond⟩ := pass_eq_ok rest passed moved
      cases step with
      | done u =>
          cases finished
          exact ends before (stop :: rest) gap s _ split between holds looked (.inr rfl)
      | yield u =>
          have kept := passes before stop rest gap s u split between holds looked
          exact inductionHypothesis (before ++ [stop]) further u (by simp [split]) beyond kept
            finished

/-- What every look at a gap keeps, a scan of all gaps keeps. -/
theorem scan_keeps (I : σ → Prop)
    (each : ∀ before after gap s step, stops = before ++ after →
      gap.Met p pool v departure before after → I s → look s gap = .ok step → I step.value)
    (begins : I s) (done : scan p pool v look (.start v departure) s stops = .ok t) : I t := by
  apply scan_along (fun _ => I) I _ _ begins done
  · intro before stop after gap s t split between holds looked
    exact each before (stop :: after) gap s (.yield t) split between holds looked
  · intro before after gap s step split between holds looked _
    exact each before after gap s step split between holds looked

end

/-! ### Scans of mapped states -/

section

variable {σ τ : Type} {p : Problem α} {pool : BasePool} {v : Vehicle α}
  {look : σ → Gap → Except Failure (ForInStep σ)} {look' : τ → Gap → Except Failure (ForInStep τ)}
  {stops : List Stop} {departure : Instant} {s : σ}

/-- The same step of another state. -/
def mapStep (f : σ → τ) : ForInStep σ → ForInStep τ
  | .done s => .done (f s)
  | .yield s => .yield (f s)

/-- Where looking at a gap commutes with a change of the state, as long as something holds of the
stops passed, scanning commutes with it. -/
theorem scan_map_along (f : σ → τ) (I : List Stop → σ → Prop)
    (each : ∀ before after gap s, stops = before ++ after →
      gap.Met p pool v departure before after → I before s →
      look' (f s) gap = (look s gap).map (mapStep f))
    (passes : ∀ before stop after gap s t, stops = before ++ stop :: after →
      gap.Met p pool v departure before (stop :: after) → I before s → look s gap = .ok (.yield t) →
      I (before ++ [stop]) t)
    (begins : I [] s) :
    scan p pool v look' (.start v departure) (f s) stops =
      (scan p pool v look (.start v departure) s stops).map f := by
  suffices along : ∀ rest before w s, stops = before ++ rest →
      Passed p pool v departure before w → I before s →
      scan p pool v look' w (f s) rest = (scan p pool v look w s rest).map f from
    along stops [] _ s rfl (passed_start p pool v departure) begins
  intro rest
  induction rest with
  | nil =>
      intro before w s split passed holds
      simp only [scan, each before [] _ s split (lastGap_met passed) holds, exceptMap_bind,
        bind_exceptMap]
      refine bind_congr fun step => ?_
      cases step with
      | done t => rfl
      | yield t => rfl
  | cons stop rest inductionHypothesis =>
      intro before w s split passed holds
      simp only [scan, exceptMap_bind]
      cases moved : w.pass p pool v stop with
      | error e => rfl
      | ok next =>
          obtain ⟨gap, further⟩ := next
          obtain ⟨between, beyond⟩ := pass_eq_ok rest passed moved
          show look' (f s) gap >>= _ = look s gap >>= _
          rw [each before (stop :: rest) gap s split between holds, bind_exceptMap]
          cases looked : look s gap with
          | error e => rfl
          | ok step =>
              cases step with
              | done t => rfl
              | yield t =>
                  have kept := passes before stop rest gap s t split between holds looked
                  exact inductionHypothesis (before ++ [stop]) further t (by simp [split]) beyond kept

/-- Where looking at a gap commutes with a change of the state, scanning does. -/
theorem scan_map (f : σ → τ) (each : ∀ s gap, look' (f s) gap = (look s gap).map (mapStep f)) :
    scan p pool v look' (.start v departure) (f s) stops =
      (scan p pool v look (.start v departure) s stops).map f :=
  scan_map_along f (fun _ _ => True) (fun _ _ gap s _ _ _ => each s gap)
    (fun _ _ _ _ _ _ _ _ _ _ => trivial) trivial

end

/-! ### The gap at the tail -/

/-- The gap at the tail has all stops before it. -/
theorem tailGap_met {p : Problem α} {pool : BasePool} {v : Vehicle α} {stops : List Stop}
    {departure : Instant} {gap : Gap}
    (done : tailGap p pool v (.start v departure) stops = .ok gap) :
    gap.Met p pool v departure stops [] := by
  suffices along : ∀ rest before w, stops = before ++ rest → Passed p pool v departure before w →
      tailGap p pool v w rest = .ok gap → gap.Met p pool v departure stops [] from
    along stops [] _ rfl (passed_start p pool v departure) done
  intro rest
  induction rest with
  | nil =>
      intro before w split passed done
      cases done
      rw [List.append_nil] at split
      exact split ▸ lastGap_met passed
  | cons stop rest inductionHypothesis =>
      intro before w split passed done
      simp only [tailGap, bind_eq_ok] at done
      rcases done with ⟨⟨gap, further⟩, moved, later⟩
      obtain ⟨_, beyond⟩ := pass_eq_ok rest passed moved
      exact inductionHypothesis (before ++ [stop]) further (by simp [split]) beyond later

end Walk

end Haulage

/-
Module: Haulage.Proofs.Bounds
Purpose: Evaluation below a bound.  Over exact numbers a bound takes from an evaluation only the
  offers that do not lie below it; failures stay what they are, except that a route without a base
  may lack one where it had a dearer offer.
Main exports: Bound.cut, Bound.improve_cut, Survey.scanTrips_cut, Survey.openTrip_cut,
  BasePool.IsExhausted, Survey.Tallies, Survey.cheapestOnRoute_tallies
-/
import Haulage.Insertion.Destination
import Haulage.Proofs.Gap
import Mathlib.Algebra.Order.Ring.Rat

namespace Haulage

/-! ### What lies below a bound -/

namespace Bound

section

variable {α β : Type} [Quantity α] {cost : β → α} {known : Bound α}

/-- What is left of a find when it has to lie below a bound. -/
def cut (known : Bound α) (cost : β → α) (found : Option β) : Option β :=
  found.filter fun b => known.admits (cost b)

theorem cut_some (b : β) :
    known.cut cost (some b) = if known.admits (cost b) then some b else none := rfl

theorem cut_map {γ : Type} (f : γ → β) (found : Option γ) :
    known.cut cost (found.map f) = (known.cut (fun c => cost (f c)) found).map f := by
  cases found with
  | none => rfl
  | some c =>
      rw [Option.map_some, cut_some, cut_some]
      split
      · rfl
      · rfl

/-- The better one of a find, if there is one, and of something new that has to lie below a
bound. -/
def improve (known : Bound α) (cost : β → α) (best : Option β) (new : β) : Option β :=
  if admits ((best.map cost).or known) (cost new) then some new else best

theorem improve_map {γ : Type} (f : γ → β) (best : Option γ) (new : γ) :
    known.improve cost (best.map f) (f new) =
      (known.improve (fun c => cost (f c)) best new).map f := by
  rw [improve, improve, Option.map_map, apply_ite (Option.map f)]
  rfl

end

@[simp] theorem admits_none (x : Rat) : admits none x = true := rfl

theorem reachedBy_eq_not_admits (known : Bound Rat) (x : Rat) :
    known.reachedBy x = !known.admits x := by
  cases known with
  | none => rfl
  | some bound =>
      rw [reachedBy_some, admits_some, ← decide_not, decide_eq_decide]
      exact not_lt.symm

/-- Whether finds are cut at once or in the end, the same is left of them. -/
theorem improve_cut {β : Type} (known : Bound Rat) (cost : β → Rat) (best : Option β) (new : β) :
    known.improve cost (known.cut cost best) new = known.cut cost (improve none cost best new) := by
  cases best with
  | none => rfl
  | some b =>
      rw [cut_some]
      by_cases below : known.admits (cost b) = true
      · rw [if_pos below]
        by_cases better : cost new < cost b
        · have newBelow : known.admits (cost new) = true := by
            cases known with
            | none => rfl
            | some bound => simpa using better.trans (by simpa using below)
          simp [improve, better, cut_some, newBelow]
        · simp [improve, better, cut_some, below]
      · rw [if_neg below]
        by_cases better : cost new < cost b
        · have improves : improve none cost (some b) new = some new := by simp [improve, better]
          rw [improves]
          rfl
        · have newAbove : ¬known.admits (cost new) = true := by
            cases known with
            | none => exact absurd rfl below
            | some bound =>
                simp only [admits_some, decide_eq_true_eq, not_lt] at below better ⊢
                exact below.trans better
          simp [improve, better, cut_some, below, newAbove]

end Bound

/-! ### Evaluations below a bound -/

namespace Survey

namespace ScanState

section

variable {α : Type} [Quantity α]

/-- What is left of a scan when its find has to lie below a bound. -/
def cut (known : Bound α) (state : ScanState α) : ScanState α :=
  { state with best := known.cut Prod.fst state.best }

/-- Takes a gap if it improves on the best so far. -/
def take (known : Bound α) (cost : α) (gap : Gap) (state : ScanState α) : ScanState α :=
  { state with best := known.improve Prod.fst state.best (cost, gap) }

theorem yield_take {cost : α} {gap : Gap} (known : Bound α) (state : ScanState α) :
    (.ok (.yield (state.take known cost gap)) : Except Failure (ForInStep (ScanState α))) =
      if Bound.admits (match state.best with
        | some (best, _) => some best
        | none => known) cost then .ok (.yield { state with best := some (cost, gap) })
      else .ok (.yield state) := by
  rcases state with ⟨best, brokenTrip⟩
  cases best with
  | none =>
      by_cases admits : known.admits cost = true
      · simp [take, Bound.improve, admits]
      · simp [take, Bound.improve, admits]
  | some found =>
      by_cases admits : cost < found.1
      · simp [take, Bound.improve, admits]
      · simp [take, Bound.improve, admits]

end

theorem take_cut (known : Bound Rat) (cost : Rat) (gap : Gap) (state : ScanState Rat) :
    (state.cut known).take known cost gap = (state.take none cost gap).cut known :=
  congrArg (fun best => { state with best := best })
    (known.improve_cut Prod.fst state.best (cost, gap))

end ScanState

variable {s : Survey Rat} {t : RouteTrial Rat} {route : Route} {d : Destination Rat}
  {job base : Nat} {routeCost : Rat} {known : Bound Rat}

/-- Looking at a gap below a bound is looking at it without one. -/
theorem lookAt_cut (state : ScanState Rat) (gap : Gap) :
    s.lookAt t job d routeCost known (state.cut known) gap =
      (s.lookAt t job d routeCost none state gap).map (Walk.mapStep (·.cut known)) := by
  simp only [lookAt]
  have trip : (state.cut known).brokenTrip = state.brokenTrip := rfl
  rw [trip]
  split
  · rfl
  · rw [exceptMap_bind]
    refine bind_congr fun verdict => ?_
    cases verdict with
    | breakTrip | continueScan => rfl
    | fulfilled =>
        simp only [exceptMap_bind]
        refine bind_congr fun windowCost => bind_congr fun detour => ?_
        generalize routeCost + windowCost + detour = cost
        refine (ScanState.yield_take known (state.cut known)).symm.trans ?_
        rw [ScanState.take_cut]
        exact congrArg (Except.map (Walk.mapStep (·.cut known))) (ScanState.yield_take none state)

/-- Below a bound a scan finds what it finds without one, as long as that lies below the bound. -/
theorem scanTrips_cut :
    s.scanTrips t route job d routeCost known =
      (s.scanTrips t route job d routeCost none).map (known.cut Offer.cost) := by
  have scans : Walk.scan s.problem s.plan.pool t.vehicle (s.lookAt t job d routeCost known)
      (.start t.vehicle t.departure) ⟨none, none⟩ route.stops =
      (Walk.scan s.problem s.plan.pool t.vehicle (s.lookAt t job d routeCost none)
        (.start t.vehicle t.departure) ⟨none, none⟩ route.stops).map (·.cut known) :=
    Walk.scan_map (s := ⟨none, none⟩) (ScanState.cut known) lookAt_cut
  simp only [scanTrips, exceptMap_bind, scans, bind_exceptMap]
  refine bind_congr fun state => congrArg Except.ok ?_
  rw [Bound.cut_map]
  rfl

/-- Below a bound a trip is opened if it is opened without one and costs less than the bound. -/
theorem openTrip_cut :
    s.openTrip t route job d base routeCost known =
      (s.openTrip t route job d base routeCost none).map (known.cut Offer.cost) := by
  simp only [openTrip, exceptMap_bind]
  refine bind_congr fun tail => bind_congr fun chosen => ?_
  cases chosen with
  | none => rfl
  | some location =>
      simp only [exceptMap_bind]
      refine bind_congr fun verdict => ?_
      cases verdict with
      | breakTrip | continueScan => rfl
      | fulfilled =>
          simp only [exceptMap_bind]
          refine bind_congr fun leaving => bind_congr fun arrival => bind_congr fun duration =>
            bind_congr fun verdict => ?_
          cases verdict with
          | breakTrip | continueScan => rfl
          | fulfilled =>
              simp only [exceptMap_bind]
              refine bind_congr fun _ => bind_congr fun _ => bind_congr fun _ =>
                bind_congr fun _ => ?_
              simp only [Bound.reachedBy_eq_not_admits, Bound.admits_none]
              generalize routeCost + _ + _ + _ = cost
              cases admits : known.admits cost with
              | true => simp [Except.map, Bound.cut_some, admits]
              | false => simp [Except.map, Bound.cut_some, admits]

/-- What an evaluation goes on with, if it opens no trip: the best offer so far has to be undercut by
a new trip. -/
theorem openTrip_bind (known : Bound Rat) (best : Option (Offer Rat)) {bound : Bound Rat}
    (isBound : bound = (best.map Offer.cost).or known)
    {next : Option (Offer Rat) → Except Failure (Option (Offer Rat))}
    (opened : ∀ offer, next (some offer) = .ok (some offer)) (unopened : next none = .ok best) :
    s.openTrip t route job d base routeCost bound >>= next =
      (s.openTrip t route job d base routeCost none).map fun opened =>
        opened.elim best (known.improve Offer.cost best) := by
  subst isBound
  rw [openTrip_cut, bind_exceptMap]
  cases s.openTrip t route job d base routeCost none with
  | error e => rfl
  | ok found =>
      cases found with
      | none => exact unopened
      | some offer =>
          show next (Bound.cut _ _ (some offer)) = .ok (known.improve Offer.cost best offer)
          rw [Bound.cut_some, Bound.improve]
          split
          · exact opened offer
          · exact unopened

/-! ### Answers that tally -/

end Survey

/-- No base of the pool is free. -/
def BasePool.IsExhausted (pool : BasePool) : Prop := pool.lowestFree? = none

namespace Survey

variable {s : Survey Rat} {t : RouteTrial Rat} {route : Route} {d : Destination Rat}
  {job r vehicle base : Nat} {departure : Instant} {routeCost : Rat} {known : Bound Rat}

/-- An answer that brings no offer. -/
def FindsNothing (answer : Except Failure (Option (Offer Rat))) : Prop :=
  answer = .ok none ∨ answer = .error (.refused .poolExhausted)

/-- The same answers, unless there is no base left and neither brings an offer. -/
def Tallies (pool : BasePool) (answer other : Except Failure (Option (Offer Rat))) : Prop :=
  answer = other ∨ pool.IsExhausted ∧ FindsNothing answer ∧ FindsNothing other

theorem Tallies.bind {β γ : Type} {pool : BasePool} {x : Except Failure β}
    {f : β → Except Failure (Option (Offer Rat))} {g : β → Except Failure γ}
    {h : γ → Option (Offer Rat)} (next : ∀ b, Tallies pool (f b) ((g b).map h)) :
    Tallies pool (x >>= f) ((x >>= g).map h) := by
  cases x with
  | ok b => exact next b
  | error e => exact .inl rfl

/-- Without a base for a new trip, the best offer of the trips is the answer, and its lack is either
refused or not. -/
theorem Tallies.of_exhausted {pool : BasePool} (best : Option (Offer Rat))
    {x y : Except Failure (Option (Offer Rat))} (exhausted : pool.IsExhausted)
    (finds : ∀ offer, known.cut Offer.cost best = some offer → x = .ok (some offer))
    (misses : known.cut Offer.cost best = none → FindsNothing x)
    (findsUncut : ∀ offer, best = some offer → y = .ok (some offer))
    (missesUncut : best = none → FindsNothing y) :
    Tallies pool x (y.map (known.cut Offer.cost)) := by
  cases left : known.cut Offer.cost best with
  | some offer =>
      have found : best = some offer := (Option.filter_eq_some_iff.mp left).1
      rw [finds offer left, findsUncut offer found]
      rw [found] at left
      exact .inl (congrArg Except.ok left.symm)
  | none =>
      refine .inr ⟨exhausted, misses left, ?_⟩
      cases best with
      | none =>
          rcases missesUncut rfl with nothing | lacks
          · exact .inl (by rw [nothing]; rfl)
          · exact .inr (by rw [lacks]; rfl)
      | some offer =>
          rw [findsUncut offer rfl]
          exact .inl (congrArg Except.ok left)

/-- The same new trips undercut the best offer of the trips, whether that was cut or not. -/
theorem openTrip_bind_cut {bound uncut : Bound Rat} (best : Option (Offer Rat))
    {next nextUncut : Option (Offer Rat) → Except Failure (Option (Offer Rat))}
    (isBound : bound = ((known.cut Offer.cost best).map Offer.cost).or known)
    (isUncut : uncut = (best.map Offer.cost).or none)
    (opened : ∀ offer, next (some offer) = .ok (some offer))
    (unopened : next none = .ok (known.cut Offer.cost best))
    (openedUncut : ∀ offer, nextUncut (some offer) = .ok (some offer))
    (unopenedUncut : nextUncut none = .ok best) :
    s.openTrip t route job d base routeCost bound >>= next =
      (s.openTrip t route job d base routeCost uncut >>= nextUncut).map (known.cut Offer.cost) := by
  rw [openTrip_bind known _ isBound opened unopened,
    openTrip_bind none best isUncut openedUncut unopenedUncut]
  rcases s.openTrip t route job d base routeCost none with e | opened | offer
  · rfl
  · rfl
  · exact congrArg Except.ok (known.improve_cut Offer.cost best offer)

/-- On a route, an evaluation below a bound tallies with one without a bound.  The two may differ in
whether they open trips only if there is no base left for one. -/
theorem cheapest_tallies {allows : Bool}
    (agree : s.allowsNewTrips = allows ∨ s.plan.pool.IsExhausted) :
    Tallies s.plan.pool (s.cheapest r job vehicle departure known)
      (({ s with allowsNewTrips := allows }.cheapest r job vehicle departure none).map
        (known.cut Offer.cost)) := by
  refine Tallies.bind fun route => Tallies.bind fun v => ?_
  dsimp only
  split
  · exact .inl rfl
  refine Tallies.bind fun d => Tallies.bind fun routeCost => ?_
  rw [scanTrips_cut, bind_exceptMap]
  refine Tallies.bind fun best => ?_
  cases lowest : s.plan.pool.lowestFree? with
  | none =>
      apply Tallies.of_exhausted best lowest
      · intro offer found
        simp [found]
      · intro missed
        rw [missed]
        dsimp only
        split
        · exact .inr rfl
        · exact .inl rfl
      · rintro offer rfl
        simp
      · rintro rfl
        dsimp only
        split
        · exact .inr rfl
        · exact .inl rfl
  | some base =>
      obtain rfl := agree.resolve_right (by simp [BasePool.IsExhausted, lowest])
      dsimp only
      split
      · apply Or.inl
        apply openTrip_bind_cut best
        · cases known.cut Offer.cost best with
          | none => rfl
          | some offer => rfl
        · cases best with
          | none => rfl
          | some offer => rfl
        · exact fun _ => rfl
        · rfl
        · exact fun _ => rfl
        · rfl
      · exact .inl rfl

/-- The same with the vehicle and the departure of the route. -/
theorem cheapestOnRoute_tallies {allows : Bool}
    (agree : s.allowsNewTrips = allows ∨ s.plan.pool.IsExhausted) :
    Tallies s.plan.pool (s.cheapestOnRoute job known r)
      (({ s with allowsNewTrips := allows }.cheapestOnRoute job none r).map
        (known.cut Offer.cost)) :=
  Tallies.bind fun _ => Tallies.bind fun _ => cheapest_tallies agree

end Survey

end Haulage

/-
Module: Haulage.Proofs.WholeTrips
Purpose: What the placement of all bases takes out of a plan: whole trips with their bases, and the
  bases that close no trip.  Whatever else is in the plan, the routes keep the rest in its order.
Main exports: Plan.Apart, Plan.Sheds, Work.placeRoutes_sheds, Work.Comes, placeAll_removes_trips
-/
import Haulage.Proofs.PlacedAgain
import Haulage.Proofs.Reduced
import Haulage.Proofs.Standing

namespace Haulage

variable {α : Type} [Quantity α]

open Attempt Plan

/-! ### The visits of all routes -/

namespace Plan

section

variable {plan middle next : Plan α} {r : Nat} {stops kept : List Stop} {routes rest : List Nat}
  {jobs removed : List Nat}

omit [Quantity α] in
theorem mem_allStops {stop : Stop} :
    stop ∈ plan.allStops ↔ ∃ r stops, plan.Visits r stops ∧ stop ∈ stops := by
  rw [allStops, List.mem_flatMap]
  constructor
  · rintro ⟨⟨vehicle, stops⟩, among, member⟩
    obtain ⟨r, found⟩ := List.getElem?_of_mem among
    exact ⟨r, stops, ⟨vehicle, found⟩, member⟩
  · rintro ⟨r, stops, ⟨vehicle, found⟩, member⟩
    exact ⟨(vehicle, stops), List.mem_of_getElem? found, member⟩

/-- No stop occurs twice, be it on one route or on two. -/
structure Apart (plan : Plan α) : Prop where
  once : ∀ r stops, plan.Visits r stops → stops.Nodup
  routes : ∀ i j stops others, i ≠ j → plan.Visits i stops → plan.Visits j others →
    ∀ stop ∈ stops, stop ∉ others

omit [Quantity α] in
theorem apart_of_nodup (once : plan.allStops.Nodup) : plan.Apart := by
  obtain ⟨each, disjoint⟩ := List.nodup_flatMap.mp once
  refine ⟨?_, ?_⟩
  · rintro r stops ⟨vehicle, found⟩
    exact each _ (List.mem_of_getElem? found)
  · rintro i j stops others apart ⟨vehicle, found⟩ ⟨vehicle', there⟩ stop member
    obtain ⟨inside, here⟩ := List.getElem?_eq_some_iff.mp found
    obtain ⟨within, beside⟩ := List.getElem?_eq_some_iff.mp there
    have pairs := List.pairwise_iff_getElem.mp disjoint
    rcases Nat.lt_or_gt_of_ne apart with before | after
    · have never : List.Disjoint plan.itineraries[i].2 plan.itineraries[j].2 :=
        pairs i j inside within before
      rw [here, beside] at never
      exact fun again => never member again
    · have never : List.Disjoint plan.itineraries[j].2 plan.itineraries[i].2 :=
        pairs j i within inside after
      rw [here, beside] at never
      exact fun again => never again member

/-- Every route visits stops that it visited before, in their order. -/
def Thins (plan next : Plan α) : Prop :=
  ∀ r kept, next.Visits r kept → ∃ stops, plan.Visits r stops ∧ kept.Sublist stops

omit [Quantity α] in
theorem Apart.thins (apart : plan.Apart) (thins : plan.Thins next) : next.Apart := by
  refine ⟨fun r kept visits => ?_, fun i j kept others distinct visits also stop member again => ?_⟩
  · obtain ⟨stops, before, sublist⟩ := thins r kept visits
    exact (apart.once r stops before).sublist sublist
  · obtain ⟨stops, before, sublist⟩ := thins i kept visits
    obtain ⟨wholes, there, sublistToo⟩ := thins j others also
    exact apart.routes i j stops wholes distinct before there stop (sublist.subset member)
      (sublistToo.subset again)

omit [Quantity α] in
theorem Thins.mem_allStops (thins : plan.Thins next) {stop : Stop} (member : stop ∈ next.allStops) :
    stop ∈ plan.allStops := by
  obtain ⟨r, kept, visits, here⟩ := Plan.mem_allStops.mp member
  obtain ⟨stops, before, sublist⟩ := thins r kept visits
  exact Plan.mem_allStops.mpr ⟨r, stops, before, sublist.subset here⟩

omit [Quantity α] in
theorem Trims.thins (trims : Trims r stops kept jobs plan next) : plan.Thins next := by
  intro i others visits
  by_cases same : r = i
  · subst same
    rcases trims.itineraries with ⟨vehicle, found, _⟩
    obtain rfl := visits.unique trims.visits
    exact ⟨stops, ⟨vehicle, found⟩, trims.sublist⟩
  · rw [Visits, trims.others same] at visits
    exact ⟨others, visits, .refl others⟩

omit [Quantity α] in
/-- A base that is missing on one route is missing everywhere. -/
theorem Trims.mem_allStops (trims : Trims r stops kept jobs plan next) (apart : plan.Apart)
    {stop : Stop} :
    stop ∈ stops ∧ stop ∉ kept ↔ stop ∈ plan.allStops ∧ stop ∉ next.allStops := by
  rcases trims.itineraries with ⟨vehicle, found, _⟩
  have visits : plan.Visits r stops := ⟨vehicle, found⟩
  simp only [Plan.mem_allStops]
  constructor
  · rintro ⟨member, lost⟩
    refine ⟨⟨r, stops, visits, member⟩, ?_⟩
    rintro ⟨i, others, visitsNow, again⟩
    by_cases same : r = i
    · subst same
      exact lost (visitsNow.unique trims.visits ▸ again)
    · rw [Visits, trims.others same] at visitsNow
      exact apart.routes r i stops others same visits visitsNow stop member again
  · rintro ⟨⟨i, others, visitsThere, member⟩, lost⟩
    by_cases same : r = i
    · subst same
      obtain rfl := visits.unique visitsThere
      exact ⟨member, fun again => lost ⟨r, kept, trims.visits, again⟩⟩
    · refine absurd ⟨i, others, ?_, member⟩ lost
      rwa [Visits, trims.others same]

/-- What the visits of some routes take out of a plan: on each of them some trips, and of the rest
of the plan nothing. -/
structure Sheds (routes removed : List Nat) (plan next : Plan α) : Prop where
  length_eq : next.itineraries.length = plan.itineraries.length
  each : ∀ (r vehicle : Nat) (stops : List Stop), plan.itineraries[r]? = some (vehicle, stops) →
    ∃ kept, next.itineraries[r]? = some (vehicle, kept) ∧ kept.Sublist stops ∧
      (r ∉ routes → kept = stops) ∧
      (r ∈ routes → kept = cutDown (Trip.endsAmong kept) stops ∧ InTrips True next.pool kept)
  removed_eq : removed = routes.flatMap fun r =>
    jobsOutside (Trip.endsAmong (next.stopsOn r)) (closedTrips (plan.stopsOn r))
  free : ∀ b, next.pool.isFree b = true ↔
    plan.pool.isFree b = true ∨ (.base b ∈ plan.allStops ∧ .base b ∉ next.allStops)
  unassigned : ∀ job, job ∈ next.unassigned ↔ job ∈ plan.unassigned ∨ job ∈ removed
  elsewhere : ∀ b, (∀ r ∈ routes, .base b ∉ plan.stopsOn r) → next.pool.base b = plan.pool.base b

omit [Quantity α] in
theorem Sheds.refl (plan : Plan α) : Sheds [] [] plan plan := by
  refine ⟨rfl, fun r vehicle stops found => ⟨stops, found, .refl _, fun _ => rfl, ?_⟩, rfl,
    fun b => ?_, fun job => ?_, fun _ _ => rfl⟩
  · intro member
    cases member
  · tauto
  · simp

omit [Quantity α] in
theorem Sheds.thins (sheds : Sheds routes removed plan next) : plan.Thins next := by
  rintro r kept ⟨vehicle, found⟩
  have inside := (List.getElem?_eq_some_iff.mp found).1
  rw [sheds.length_eq] at inside
  obtain ⟨_, there, sublist, _⟩ := sheds.each r _ _ (List.getElem?_eq_getElem inside)
  rw [found] at there
  cases there
  exact ⟨_, ⟨_, List.getElem?_eq_getElem inside⟩, sublist⟩

omit [Quantity α] in
/-- The base of a trip is left on its own route when it is left at all. -/
theorem Sheds.endsAmong_allStops {t : Trip} (sheds : Sheds routes removed plan next)
    (apart : plan.Apart) (visits : plan.Visits r stops) (closes : .base t.base ∈ stops) :
    t.endsAmong next.allStops = t.endsAmong (next.stopsOn r) := by
  rcases visits with ⟨vehicle, found⟩
  obtain ⟨kept, now, _⟩ := sheds.each r vehicle stops found
  have visitsNow : next.Visits r kept := ⟨vehicle, now⟩
  have among : Stop.base t.base ∈ next.allStops ↔ .base t.base ∈ kept := by
    rw [Plan.mem_allStops]
    constructor
    · rintro ⟨i, others, there, member⟩
      obtain ⟨whole, before, sublist⟩ := sheds.thins i others there
      by_cases same : r = i
      · subst same
        exact there.unique visitsNow ▸ member
      · exact absurd (sublist.subset member)
          (apart.routes r i stops whole same ⟨vehicle, found⟩ before _ closes)
    · exact fun member => ⟨r, kept, visitsNow, member⟩
  rw [visitsNow.stopsOn_eq, Trip.endsAmong, Trip.endsAmong, decide_eq_decide]
  exact among

omit [Quantity α] in
/-- The bases of a route that is not visited stay as they are. -/
theorem Sheds.base_eq {b : Nat} (sheds : Sheds routes removed plan next) (apart : plan.Apart)
    (fresh : r ∉ routes) (visits : plan.Visits r stops) (member : .base b ∈ stops) :
    next.pool.base b = plan.pool.base b := by
  refine sheds.elsewhere b fun i among again => ?_
  cases beside : plan.itineraries[i]? with
  | none => simp [stopsOn, beside] at again
  | some itinerary =>
      have there : plan.Visits i itinerary.2 := ⟨_, beside⟩
      rw [there.stopsOn_eq] at again
      exact apart.routes r i stops _ (fun same => fresh (same ▸ among)) visits there _ member again

omit [Quantity α] in
/-- One route is visited, and others after it. -/
theorem Sheds.cons (apart : plan.Apart) (fresh : r ∉ rest)
    (trims : Trims r stops kept jobs plan middle)
    (keeps : kept = cutDown (Trip.endsAmong kept) stops)
    (loses : jobs = jobsOutside (Trip.endsAmong kept) (closedTrips stops))
    (inTrips : InTrips True middle.pool kept) (sheds : Sheds rest removed middle next) :
    Sheds (r :: rest) (jobs ++ removed) plan next := by
  rcases trims.itineraries with ⟨vehicle, found, changed⟩
  have inside := (List.getElem?_eq_some_iff.mp found).1
  have foundNow : middle.itineraries[r]? = some (vehicle, kept) := by
    rw [changed, List.getElem?_set_self inside]
  obtain ⟨_, foundLast, _, stays, _⟩ := sheds.each r vehicle kept foundNow
  obtain rfl := stays fresh
  have others : ∀ i ∈ rest, middle.stopsOn i = plan.stopsOn i := by
    intro i member
    rw [stopsOn, stopsOn, trims.others (fun same => fresh (same ▸ member))]
  have last : next.Visits r _ := ⟨vehicle, foundLast⟩
  have first : plan.Visits r stops := ⟨vehicle, found⟩
  refine ⟨?_, fun i home whole there => ?_, ?_, fun b => ?_, fun job => ?_, fun b outside => ?_⟩
  · rw [sheds.length_eq, changed, List.length_set]
  · by_cases same : r = i
    · subst same
      rw [found] at there
      cases there
      refine ⟨_, foundLast, trims.sublist, fun out => absurd List.mem_cons_self out, fun _ =>
        ⟨keeps, inTrips.congr fun b member => BasePool.locationOf_congr ?_⟩⟩
      exact sheds.base_eq (apart.thins trims.thins) fresh trims.visits member
    · rw [← trims.others same] at there
      obtain ⟨left, foundLeft, sublist, untouched, cut⟩ := sheds.each i home whole there
      refine ⟨left, foundLeft, sublist, fun out => untouched fun member => ?_, fun among => ?_⟩
      · exact out (List.mem_cons_of_mem r member)
      · exact cut ((List.mem_cons.mp among).resolve_left (Ne.symm same))
  · have later : (rest.flatMap fun i =>
        jobsOutside (Trip.endsAmong (next.stopsOn i)) (closedTrips (middle.stopsOn i))) =
        rest.flatMap fun i =>
          jobsOutside (Trip.endsAmong (next.stopsOn i)) (closedTrips (plan.stopsOn i)) :=
      List.flatMap_congr fun i member => by rw [others i member]
    rw [List.flatMap_cons, last.stopsOn_eq, first.stopsOn_eq, ← loses, sheds.removed_eq, later]
  · have fewer : .base b ∈ middle.allStops → .base b ∈ plan.allStops := trims.thins.mem_allStops
    have fewerAgain : .base b ∈ next.allStops → .base b ∈ middle.allStops :=
      sheds.thins.mem_allStops
    rw [sheds.free, trims.free, trims.mem_allStops apart]
    tauto
  · rw [sheds.unassigned, trims.unassigned, List.mem_append, or_assoc]
  · have outsideNow : ∀ i ∈ rest, .base b ∉ middle.stopsOn i := fun i member =>
      others i member ▸ outside i (List.mem_cons_of_mem r member)
    have own := outside r List.mem_cons_self
    rw [first.stopsOn_eq] at own
    rw [sheds.elsewhere b outsideNow, trims.elsewhere b own]

end

end Plan

namespace Work

section

variable {p : Problem α} {settings : Settings α} {r : Nat} {routes rest removed : List Nat}
  {w next : Work α}

theorem placeRoutes_cons_eq_ok :
    placeRoutes p settings (r :: rest) w = .ok removed next ↔
      ∃ jobs middle later, placeRoute p settings r w = .ok jobs middle ∧
        placeRoutes p settings rest middle = .ok later next ∧ removed = jobs ++ later := by
  rw [placeRoutes]
  simp only [bind_answers]
  constructor
  · rintro ⟨jobs, middle, here, later, _, there, equal⟩
    cases equal
    exact ⟨jobs, middle, later, here, there, rfl⟩
  · rintro ⟨jobs, middle, later, here, there, rfl⟩
    exact ⟨jobs, middle, here, later, next, there, rfl⟩

theorem placeRoutes_sheds (apart : w.plan.Apart) (distinct : routes.Nodup)
    (done : placeRoutes p settings routes w = .ok removed next) :
    Sheds routes removed w.plan next.plan := by
  induction routes generalizing w removed with
  | nil =>
      cases done
      exact .refl _
  | cons r routes inductionHypothesis =>
      obtain ⟨jobs, middle, later, here, there, rfl⟩ := placeRoutes_cons_eq_ok.mp done
      obtain ⟨fresh, others⟩ := List.nodup_cons.mp distinct
      obtain ⟨plan, _, repaired, _⟩ := placeRoute_eq_ok.mp here
      obtain ⟨stops, visits⟩ := visits_of_repairRoute repaired
      obtain ⟨kept, trims, keeps, loses, inTrips⟩ :=
        placeRoute_trims visits (apart.once r stops visits) here
      exact .cons apart fresh trims keeps loses inTrips
        (inductionHypothesis (apart.thins trims.thins) others there)

/-- The placement of all bases comes, on one of the routes, to a state of its visit. -/
def Comes (p : Problem α) (settings : Settings α) (begins : Work α) (r : Nat)
    (s : PlacementState α) (ahead : List Stop) (w : Work α) : Prop :=
  ∃ visited later earlier before plan route removed,
    begins.plan.routeIds = visited ++ r :: later ∧
    placeRoutes p settings visited { begins with volumes := begins.volumes.clear } =
      .ok earlier before ∧
    before.plan.repairRoute p r = .ok plan ∧ plan.routes[r]? = some route ∧
    Proceeds p settings r ⟨0, 0, .empty, 0, []⟩ route.stops { before with plan := plan } removed s
      ahead w

/-- Where the placement comes to, the stops ahead are those of the route from the position on, and
in front of a base there is a job. -/
theorem Comes.behind {s : PlacementState α} {ahead : List Stop} (apart : w.plan.Apart)
    (comes : Comes p settings w r s ahead next) :
    ∃ route, next.plan.routes[r]? = some route ∧
      route.stops.drop (s.tripStart + s.passed) = ahead ∧
      ∀ b rest, ahead = .base b :: rest → ∃ job, 0 < s.tripStart + s.passed ∧
        route.stops[s.tripStart + s.passed - 1]? = some (.destination job) := by
  rcases comes with ⟨visited, later, earlier, before, plan, route, removed, split, visits, repaired,
    found, proceeds⟩
  have distinct : visited.Nodup := by
    have all : (visited ++ r :: later).Nodup := split ▸ List.nodup_range
    exact (List.nodup_append.mp all).1
  have sheds : Sheds visited earlier w.plan before.plan :=
    placeRoutes_sheds (w := { w with volumes := w.volumes.clear }) apart distinct visits
  have apartNow := apart.thins sheds.thins
  obtain ⟨stops, visiting⟩ := visits_of_repairRoute repaired
  have once := apartNow.once r stops visiting
  have tidied := Trims.repairRoute visiting once repaired
  have tidy := tidied.visits.unique (visits_of_route found)
  rw [← tidy] at proceeds
  obtain ⟨passed, trip, reduced⟩ :=
    proceeds.reduces (once.sublist tidied.sublist) (.start tidied.visits before.volumes)
  rcases reduced.visiting with ⟨⟨vehicle, visitsNow⟩, start, through, _⟩
  obtain ⟨routeNow, foundNow, _, whole⟩ := itineraries_eq_some.mp visitsNow
  refine ⟨routeNow, foundNow, ?_, ?_⟩
  · have position : s.tripStart + s.passed =
        (stopsLeft passed ++ trip.map Stop.destination).length := by simp [start, through]
    rw [position, whole, ← List.append_assoc, List.drop_left]
  · rintro b rest rfl
    have serves : ∀ t ∈ closedTrips (splitIdleBases true stops).1, t.jobs ≠ [] := by
      intro t member
      rw [closedTrips_splitIdleBases] at member
      simpa using (List.mem_filter.mp member).2
    obtain ⟨_, job, again, positive, here⟩ := reduced.behind_job serves
    rw [foundNow] at again
    cases again
    exact ⟨job, positive, here⟩

end

end Work

/-- In a plan in which no stop occurs twice, the placement of all bases never looks in front of a
route, however it ends.  When it answers, every route has lost its idle bases and some of its trips,
and nothing else has changed places.  The answer lists the jobs of these trips, which alone are newly
unassigned, and the bases that were taken out are free. -/
theorem placeAll_removes_trips {p : Problem α} {settings : Settings α} {w : Work α}
    (once : w.plan.allStops.Nodup) :
    (∀ r s ahead now, Work.Comes p settings w r s ahead now →
      ∃ route, now.plan.routes[r]? = some route ∧
        route.stops.drop (s.tripStart + s.passed) = ahead ∧
        ∀ b rest, ahead = .base b :: rest → ∃ job, 0 < s.tripStart + s.passed ∧
          route.stops[s.tripStart + s.passed - 1]? = some (.destination job)) ∧
    ∀ removed next, Work.placeAll p settings w = .ok removed next →
      next.plan.itineraries.length = w.plan.itineraries.length ∧
      (∃ stays : Trip → Bool,
        (∀ (r vehicle : Nat) (stops : List Stop), w.plan.itineraries[r]? = some (vehicle, stops) →
          next.plan.itineraries[r]? = some (vehicle, cutDown stays stops)) ∧
        removed = jobsOutside stays w.plan.trips) ∧
      (∀ r stops, next.plan.Visits r stops → WellShaped True next.plan.pool stops) ∧
      (∀ job, job ∈ next.plan.unassigned ↔ job ∈ w.plan.unassigned ∨ job ∈ removed) ∧
      ∀ b, next.plan.pool.isFree b = true ↔ w.plan.pool.isFree b = true ∨
        (.base b ∈ w.plan.allStops ∧ .base b ∉ next.plan.allStops) := by
  have apart := apart_of_nodup once
  refine ⟨fun r s ahead now => Work.Comes.behind apart, fun removed next done => ?_⟩
  simp only [Work.placeAll, modify_bind, get_bind] at done
  have sheds := Work.placeRoutes_sheds (w := { w with volumes := w.volumes.clear }) apart
    List.nodup_range done
  have left : ∀ r ∈ w.plan.routeIds, ∀ t ∈ closedTrips (w.plan.stopsOn r),
      t.endsAmong next.plan.allStops = t.endsAmong (next.plan.stopsOn r) := by
    intro r member t among
    exact sheds.endsAmong_allStops apart (visits_of_mem_routeIds member)
      (stops_of_mem_closedTrips among).1
  refine ⟨sheds.length_eq, ⟨Trip.endsAmong next.plan.allStops, fun r vehicle stops found => ?_, ?_⟩,
    fun r kept visits => ?_, sheds.unassigned, sheds.free⟩
  · have visits : w.plan.Visits r stops := ⟨vehicle, found⟩
    obtain ⟨kept, now, _, _, cut⟩ := sheds.each r vehicle stops found
    have visitsNow : next.plan.Visits r kept := ⟨vehicle, now⟩
    have same := left r visits.mem_routeIds
    rw [visits.stopsOn_eq, visitsNow.stopsOn_eq] at same
    rw [now, cutDown_congr same, ← (cut visits.mem_routeIds).1]
  · rw [sheds.removed_eq, trips, tripsOn, jobsOutside_flatMap]
    exact List.flatMap_congr fun r member => (jobsOutside_congr (left r member)).symm
  · obtain ⟨stops, vehicle, found⟩ : ∃ stops, w.plan.Visits r stops := by
      obtain ⟨stops, before, _⟩ := sheds.thins r kept visits
      exact ⟨stops, before⟩
    obtain ⟨_, now, _, _, cut⟩ := sheds.each r vehicle stops found
    obtain rfl := visits.unique ⟨vehicle, now⟩
    exact (cut (Visits.mem_routeIds ⟨vehicle, found⟩)).2.wellShaped

/-- A route that begins with a base.  The trip with the large job is removed, and the job behind the
last base stays. -/
theorem placeAll_removes_trips_threeJobs :
    ∃ plan next, plan.itineraries = [(0, [.base 2, .destination 0, .base 0, .destination 1, .base 1,
        .destination 2])] ∧ plan.allStops.Nodup ∧
      Work.placeAll threeJobs (.forProblem threeJobs .standard)
        ⟨plan, .ofSites threeJobs.sites⟩ = .ok [1] next ∧
      next.plan.itineraries = [(0, [.destination 0, .base 0, .destination 2])] ∧
      WellShaped True next.plan.pool [.destination 0, .base 0, .destination 2] ∧
      next.plan.pool.isFree 1 = true ∧ next.plan.pool.isFree 2 = true := by
  obtain ⟨empty, plan, next, last, _, _, itineraries, placed, layout, _, _⟩ :=
    placeTwice_threeJobs
      [.base 2, .destination 0, .base 0, .destination 1, .base 1, .destination 2]
      ([1], ⟨[(0, [.destination 0, .base 0, .destination 2])], [some 1, none, none]⟩)
      ([], ⟨[(0, [.destination 0, .base 0, .destination 2])], [some 3, none, none]⟩)
      (by decide +kernel)
  have now : next.plan.itineraries = [(0, [.destination 0, .base 0, .destination 2])] :=
    congrArg Layout.itineraries layout
  have stops : plan.allStops = [.base 2, .destination 0, .base 0, .destination 1, .base 1,
      .destination 2] := by
    rw [allStops, itineraries]
    rfl
  have once : plan.allStops.Nodup := by
    rw [stops]
    decide
  have left : next.plan.allStops = [.destination 0, .base 0, .destination 2] := by
    rw [allStops, now]
    rfl
  obtain ⟨_, _, shaped, _, free⟩ := (placeAll_removes_trips once).2 [1] next placed
  refine ⟨plan, next, itineraries, once, placed, now, shaped 0 _ ⟨0, by rw [now]; rfl⟩,
    (free 1).mpr (.inr ?_), (free 2).mpr (.inr ?_)⟩
  · simp [stops, left]
  · simp [stops, left]

end Haulage

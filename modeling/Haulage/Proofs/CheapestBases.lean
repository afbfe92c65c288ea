/-
Module: Haulage.Proofs.CheapestBases
Purpose: Where no site has a daily limit and every site is offered, the placement of all bases
  removes no trip, and no other choice of sites makes a route cheaper.  Between two bases there is
  always a job, so that the best place for one does not depend on where the others lie.
Main exports: Problem.detour, Problem.Nearest, cheapestAmong_least, Settings.Unlimited, LiesBest,
  Route.costFrom_least, Work.PlacedBest, placeAll_cheapest
-/
import Haulage.Proofs.DailyCapacity
import Haulage.Proofs.UnfailingSessions
import Haulage.Proofs.WholeTrips
import Mathlib.Tactic.Linarith

namespace Haulage

open Attempt Plan

/-! ### The detour through a location -/

namespace Problem

variable {p : Problem Rat} {v : Vehicle Rat} {previous next : Option Nat} {location : Nat}

/-- The cost of a detour through a location on the way from one place to another. -/
def detour (p : Problem Rat) (v : Vehicle Rat) (previous next : Option Nat) (location : Nat) :
    Except Failure Rat := do
  let access ← p.travelCost v previous (some location)
  let egress ← p.travelCost v (some location) next
  .ok (access + egress)

theorem detour_eq_ok {cost : Rat} :
    p.detour v previous next location = .ok cost ↔
      ∃ access egress, p.travelCost v previous (some location) = .ok access ∧
        p.travelCost v (some location) next = .ok egress ∧ cost = access + egress := by
  simp only [detour, bind_eq_ok, Except.ok.injEq]
  constructor
  · rintro ⟨access, leaves, egress, arrives, rfl⟩
    exact ⟨access, egress, leaves, arrives, rfl⟩
  · rintro ⟨access, egress, leaves, arrives, rfl⟩
    exact ⟨access, leaves, egress, arrives, rfl⟩

/-- A site through which the way from one place to another is no longer than through any site. -/
structure Nearest (p : Problem Rat) (v : Vehicle Rat) (previous next : Option Nat)
    (location : Nat) : Prop where
  site : location ∈ p.unloadLocations
  least : ∃ cost, p.detour v previous next location = .ok cost ∧
    ∀ other ∈ p.unloadLocations, ∃ dearer, p.detour v previous next other = .ok dearer ∧
      cost ≤ dearer

/-- What a vehicle heads for where some stops lie ahead of it: the job that comes first, or the end
of the route. -/
inductive Ahead (p : Problem Rat) (v : Vehicle Rat) : List Stop → Option Nat → Prop
  | finish : Ahead p v [] v.endLocation
  | job {job : Nat} {d : Destination Rat} {rest : List Stop} (found : p.destination job = .ok d) :
      Ahead p v (.destination job :: rest) (some d.location)

end Problem

section

variable {p : Problem Rat} {volumes : Volumes Rat} {q : LocationQuery Rat} {load : Load Rat}

/-- Of a candidate and of what was known before, the search goes on with the cheaper one. -/
theorem kept_of_improve (candidate : Nat) (cost : Rat) (best : Option (Nat × Rat)) :
    ∃ kept, (if Bound.admits (best.map (·.2)) cost then some (candidate, cost) else best) =
        some kept ∧ kept.2 ≤ cost ∧ (∀ known, best = some known → kept.2 ≤ known.2) ∧
      (kept = (candidate, cost) ∨ best = some kept) := by
  cases best with
  | none => exact ⟨(candidate, cost), rfl, le_refl _, fun known none => absurd none nofun, .inl rfl⟩
  | some known =>
      rw [Option.map_some, Bound.admits_some]
      by_cases cheaper : cost < known.2
      · refine ⟨(candidate, cost), if_pos (decide_eq_true cheaper), le_refl _,
          fun other same => ?_, .inl rfl⟩
        cases same
        exact cheaper.le
      · refine ⟨known, if_neg (by simpa using cheaper), not_lt.mp cheaper, fun other same => ?_,
          .inr rfl⟩
        cases same
        exact le_refl _

/-- The location that is found is no dearer than any that takes the load, nor than the one that was
known before. -/
theorem cheapestAmong_least {candidates : List Nat} {best : Option (Nat × Rat)} {location : Nat}
    {cost : Rat}
    (searched : cheapestAmong p volumes q load best candidates = .ok (some (location, cost))) :
    (best = some (location, cost) ∨ p.detour q.vehicle q.previous q.next location = .ok cost) ∧
      (∀ known, best = some known → cost ≤ known.2) ∧
      ∀ other ∈ candidates, volumes.isLoadable other load = .ok true →
        ∃ dearer, p.detour q.vehicle q.previous q.next other = .ok dearer ∧ cost ≤ dearer := by
  induction candidates generalizing best with
  | nil =>
      cases searched
      refine ⟨.inl rfl, fun known equal => ?_, fun other member => absurd member List.not_mem_nil⟩
      cases equal
      exact le_refl _
  | cons candidate rest inductionHypothesis =>
      simp only [cheapestAmong, bind_eq_ok] at searched
      rcases searched with ⟨loadable, asked, searched⟩
      cases loadable with
      | false =>
          obtain ⟨among, below, least⟩ := inductionHypothesis searched
          refine ⟨among, below, fun other member takes => ?_⟩
          rcases List.mem_cons.mp member with rfl | later
          · cases asked.symm.trans takes
          · exact least other later takes
      | true =>
          simp only [if_true, bind_eq_ok] at searched
          rcases searched with ⟨access, leaves, egress, arrives, searched⟩
          have here : p.detour q.vehicle q.previous q.next candidate = .ok (access + egress) :=
            Problem.detour_eq_ok.mpr ⟨access, egress, leaves, arrives, rfl⟩
          obtain ⟨among, below, least⟩ := inductionHypothesis searched
          obtain ⟨kept, goesOn, cheap, cheaper, either⟩ :=
            kept_of_improve candidate (access + egress) best
          have dearest := below kept goesOn
          refine ⟨?_, fun known equal => dearest.trans (cheaper known equal),
            fun other member takes => ?_⟩
          · rcases among with first | later
            · cases goesOn.symm.trans first
              rcases either with new | old
              · cases new
                exact .inr here
              · exact .inl old
            · exact .inr later
          · rcases List.mem_cons.mp member with rfl | later
            · exact ⟨access + egress, here, dearest.trans cheap⟩
            · exact least other later takes

/-- Where every site takes the load, the location that is chosen among the sites is the nearest one,
and one is chosen if there is any. -/
theorem cheapestLoadable_nearest {chosen : Option Nat} (some_site : p.sites ≠ [])
    (takes : ∀ location ∈ p.unloadLocations, volumes.isLoadable location load = .ok true)
    (choice : cheapestLoadable p (.allSites p) volumes q load = .ok chosen) :
    ∃ location, chosen = some location ∧ p.Nearest q.vehicle q.previous q.next location := by
  have offers : (LocationProvider.allSites p).offers q = .ok p.unloadLocations := rfl
  obtain ⟨site, among⟩ := List.exists_mem_of_ne_nil _ some_site
  have listed : site.location ∈ p.unloadLocations := List.mem_map_of_mem among
  have found := cheapestLoadable_finds offers listed (takes _ listed) choice
  obtain ⟨location, rfl⟩ := Option.isSome_iff_exists.mp found
  refine ⟨location, rfl, ?_⟩
  obtain ⟨offered, again, member, _⟩ := cheapestLoadable_eq_some choice
  cases offers.symm.trans again
  simp only [cheapestLoadable, offers, bind_eq_ok, Except.ok.injEq] at choice
  rcases choice with ⟨_, rfl, best, searched, equal⟩
  obtain ⟨⟨_, cost⟩, rfl, rfl⟩ := Option.map_eq_some_iff.mp equal
  obtain ⟨here, _, least⟩ := cheapestAmong_least searched
  exact ⟨member, cost, here.resolve_left (Option.some_ne_none _).symm,
    fun other among => least other among (takes other among)⟩

end

/-! ### Sites without limits -/

/-- No site has a daily limit.  All sites are offered for every base, and there is one at least. -/
structure Settings.Unlimited (p : Problem Rat) (settings : Settings Rat) : Prop where
  some_site : p.sites ≠ []
  uncapped : ∀ site ∈ p.sites, site.dailyCapacity = none
  provider : settings.provider = .allSites p
  times : ∀ v location t, ∃ duration, settings.serviceTimes v location t = .ok duration

section

variable {p : Problem Rat} {settings : Settings Rat} {volumes : Volumes Rat}

theorem Volumes.Follows.takes (follows : volumes.Follows p)
    (uncapped : ∀ site ∈ p.sites, site.dailyCapacity = none) (load : Load Rat) :
    ∀ location ∈ p.unloadLocations, volumes.isLoadable location load = .ok true := by
  intro location site
  obtain ⟨e, tracked⟩ := Option.isSome_iff_exists.mp (follows.sites location site)
  refine Volumes.isLoadable_eq_true.mpr ⟨e, tracked, fun capacity limited => ?_⟩
  rw [follows.capacity_eq location e tracked, Problem.dailyCapacity_eq_none uncapped] at limited
  cases limited

theorem Settings.Unlimited.offersSites (unlimited : settings.Unlimited p) :
    settings.OffersSites p := by
  refine ⟨fun query => ?_, fun v location t => ?_, fun query offered offers location among => ?_⟩
  · rw [unlimited.provider]
    exact NeverRefuses.ok _
  · obtain ⟨duration, known⟩ := unlimited.times v location t
    rw [known]
    exact NeverRefuses.ok _
  · rw [unlimited.provider] at offers
    cases offers
    exact among

theorem Settings.Unlimited.reliable (unlimited : settings.Unlimited p) : settings.Reliable p := by
  refine ⟨fun query _ => ?_, ?_, fun v _ location _ t => ?_⟩
  · rw [unlimited.provider]
    exact .ok trivial
  · rintro location ⟨query, offered, offers, among⟩
    exact unlimited.offersSites.sites query offered offers location among
  · obtain ⟨duration, known⟩ := unlimited.times v location t
    rw [known]
    exact .ok trivial

end

/-! ### The cost of a route -/

/-- Those bases of a route that are among some stops lie nearest to the job before them and to what
comes behind them. -/
def LiesBest (p : Problem Rat) (pool : BasePool) (v : Vehicle Rat) (stops among : List Stop) :
    Prop :=
  ∀ before job b after, stops = before ++ .destination job :: .base b :: after → .base b ∈ among →
    ∃ d location next, p.destination job = .ok d ∧ pool.locationOf b = some location ∧
      p.Ahead v after next ∧ p.Nearest v (some d.location) next location

/-- All bases of a route lie at sites. -/
def BasesAtSites (p : Problem Rat) (pool : BasePool) (stops : List Stop) : Prop :=
  ∀ b, .base b ∈ stops → ∃ location ∈ p.unloadLocations, pool.locationOf b = some location

section

variable {p : Problem Rat} {v : Vehicle Rat} {pool other : BasePool} {stops among : List Stop}

theorem Problem.Ahead.unique {after : List Stop} {next next' : Option Nat}
    (ahead : p.Ahead v after next) (again : p.Ahead v after next') : next = next' := by
  cases ahead with
  | finish =>
      cases again with
      | finish => rfl
  | job found =>
      cases again with
      | job foundAgain =>
          cases found.symm.trans foundAgain
          rfl

theorem LiesBest.congr (best : LiesBest p pool v stops among)
    (same : ∀ b, .base b ∈ among → other.locationOf b = pool.locationOf b) :
    LiesBest p other v stops among := by
  intro before job b after split member
  obtain ⟨d, location, next, found, lies, ahead, nearest⟩ := best before job b after split member
  exact ⟨d, location, next, found, (same b member).trans lies, ahead, nearest⟩

/-- Two vehicles on the same stops with other bases.  One is not behind when it has spent no more,
wherever both head for next. -/
structure NotBehind (p : Problem Rat) (v : Vehicle Rat) (front rest : List Stop)
    (place other : Option Nat) (spent otherSpent : Rat) : Prop where
  /-- In front of a base both come from the same job. -/
  together : ∀ b after, rest = .base b :: after → spent ≤ otherSpent ∧ place = other ∧
    ∃ before job d, front = before ++ [.destination job] ∧ p.destination job = .ok d ∧
      place = some d.location
  heads : ∀ next dearer, p.Ahead v rest next → p.travelCost v other next = .ok dearer →
    ∃ cost, p.travelCost v place next = .ok cost ∧ spent + cost ≤ otherSpent + dearer

theorem NotBehind.refl {front rest : List Stop} {job : Nat} {d : Destination Rat}
    {spent otherSpent : Rat} (found : p.destination job = .ok d) (less : spent ≤ otherSpent) :
    NotBehind p v (front ++ [.destination job]) rest (some d.location) (some d.location) spent
      otherSpent := by
  refine ⟨fun b after _ => ⟨less, rfl, front, job, d, rfl, found, rfl⟩,
    fun next dearer _ travels => ⟨dearer, travels, ?_⟩⟩
  exact Rat.add_le_add_right.mpr less

/-- With all bases where they lie best, the way ahead costs no more than with the bases at other
sites. -/
theorem Route.costFrom_least (best : LiesBest p pool v stops stops)
    (sited : BasesAtSites p other stops)
    {front rest : List Stop} {place place' : Option Nat} {spent spent' total : Rat}
    (split : stops = front ++ rest) (notBehind : NotBehind p v front rest place place' spent spent')
    (travels : costFrom p other v place' spent' rest = .ok total) :
    ∃ cost, costFrom p pool v place spent rest = .ok cost ∧ cost ≤ total := by
  induction rest generalizing front place place' spent spent' with
  | nil =>
      simp only [costFrom, bind_eq_ok, Except.ok.injEq] at travels
      rcases travels with ⟨dearer, ends, rfl⟩
      obtain ⟨cost, endsToo, less⟩ := notBehind.heads _ dearer .finish ends
      refine ⟨spent + cost, ?_, less⟩
      rw [costFrom, endsToo]
      rfl
  | cons stop rest inductionHypothesis =>
      simp only [costFrom, bind_eq_ok] at travels
      rcases travels with ⟨there, found, dearer, drives, later⟩
      cases stop with
      | destination job =>
          obtain ⟨d, served, rfl⟩ := stopLocation_destination.mp found
          obtain ⟨cost, drivesToo, less⟩ := notBehind.heads _ dearer (.job served) drives
          have further : NotBehind p v (front ++ [.destination job]) rest (some d.location)
              (some d.location) (spent + cost) (spent' + dearer) := .refl served less
          obtain ⟨sum, sums, least⟩ := inductionHypothesis (by simp [split]) further later
          refine ⟨sum, ?_, least⟩
          rw [costFrom, Problem.stopLocation, served]
          simpa [bind, Except.bind, drivesToo] using sums
      | base b =>
          obtain ⟨notMore, rfl, before, job, d, rfl, served, rfl⟩ := notBehind.together b rest rfl
          have whole : stops = before ++ .destination job :: .base b :: rest := by simp [split]
          have member : Stop.base b ∈ stops := by simp [whole]
          obtain ⟨d', location, next, again, lies, ahead, nearest⟩ :=
            best before job b rest whole member
          cases served.symm.trans again
          obtain ⟨site, listed, liesThere⟩ := sited b member
          cases (stopLocation_of_locationOf liesThere).symm.trans found
          obtain ⟨cost, here, least⟩ := nearest.least
          obtain ⟨access, egress, leaves, arrives, rfl⟩ := Problem.detour_eq_ok.mp here
          have further : NotBehind p v (before ++ [.destination job] ++ [.base b]) rest
              (some location) (some site) (spent + access) (spent' + dearer) := by
            refine ⟨fun c after equal => ?_, fun next' farther aheadAgain arrivesThere => ?_⟩
            · subst equal
              cases ahead
            · cases ahead.unique aheadAgain
              obtain ⟨sum, detours, less⟩ := least site listed
              obtain ⟨_, _, leavesThere, arrivesAgain, rfl⟩ := Problem.detour_eq_ok.mp detours
              cases leavesThere.symm.trans drives
              cases arrivesAgain.symm.trans arrivesThere
              refine ⟨egress, arrives, ?_⟩
              linarith
          obtain ⟨sum, sums, less⟩ := inductionHypothesis (by simp [split]) further later
          refine ⟨sum, ?_, less⟩
          rw [costFrom, stopLocation_of_locationOf lies]
          simpa [bind, Except.bind, leaves] using sums

end

/-- The bases of a route, which does not begin with one, lie at sites, and nowhere would they lie
better. -/
structure WellSited (p : Problem Rat) (pool : BasePool) (home : Nat) (stops : List Stop) : Prop where
  starts : ∀ b, stops.head? ≠ some (.base b)
  sites : BasesAtSites p pool stops
  best : ∀ v, p.vehicle home = .ok v → LiesBest p pool v stops stops

section

variable {p : Problem Rat} {v : Vehicle Rat} {pool other : BasePool} {home : Nat}
  {stops : List Stop}

/-- In front of every base there is a job, so that those that lie best lie at sites. -/
theorem LiesBest.basesAtSites {splits : Prop} (best : LiesBest p pool v stops stops)
    (shaped : WellShaped splits pool stops) : BasesAtSites p pool stops := by
  intro b member
  obtain ⟨before, after, split⟩ := List.append_of_mem member
  rcases List.eq_nil_or_concat before with rfl | ⟨front, last, rfl⟩
  · exact absurd (congrArg List.head? split) (shaped.starts b)
  · rw [List.concat_eq_append, List.append_assoc, List.singleton_append] at split
    cases last with
    | base c => exact absurd split (shaped.apart front c b after)
    | destination job =>
        obtain ⟨_, location, _, _, lies, _, nearest⟩ := best front job b after split member
        exact ⟨location, nearest.site, lies⟩

theorem WellSited.congr (sited : WellSited p pool home stops)
    (same : ∀ b, .base b ∈ stops → other.base b = pool.base b) : WellSited p other home stops := by
  have locations : ∀ b, .base b ∈ stops → other.locationOf b = pool.locationOf b :=
    fun b member => BasePool.locationOf_congr (same b member)
  refine ⟨sited.starts, fun b member => ?_, fun v driven => (sited.best v driven).congr locations⟩
  rw [locations b member]
  exact sited.sites b member

/-- A route whose bases are well sited costs no more than with its bases at other sites. -/
theorem WellSited.transportCost_least {route : Route}
    (sited : WellSited p pool route.vehicle route.stops)
    (elsewhere : BasesAtSites p other route.stops) {total : Rat}
    (travels : route.transportCost p other = .ok total) :
    ∃ cost, route.transportCost p pool = .ok cost ∧ cost ≤ total := by
  rw [Route.transportCost] at travels ⊢
  cases empty : route.isEmpty with
  | true =>
      rw [empty, if_pos rfl] at travels
      cases travels
      exact ⟨0, if_pos rfl, le_refl _⟩
  | false =>
      rw [empty, if_neg Bool.false_ne_true, bind_eq_ok] at travels
      obtain ⟨v, driven, travels⟩ := travels
      have together : NotBehind p v [] route.stops v.depot v.depot 0 0 := by
        refine ⟨fun b after begins => ?_, fun next cost _ drives => ⟨cost, drives, le_refl _⟩⟩
        exact absurd (congrArg List.head? begins) (sited.starts b)
      obtain ⟨cost, spent, least⟩ :=
        Route.costFrom_least (sited.best v driven) elsewhere rfl together travels
      refine ⟨cost, ?_, least⟩
      rw [if_neg Bool.false_ne_true, driven]
      exact spent

end

/-! ### The visit of a route -/

namespace Work

section

variable {p : Problem Rat} {settings : Settings Rat} {r b home : Nat} {begins : Plan Rat}
  {stops ahead : List Stop} {passed : List (Trip × Bool)} {trip removed : List Nat}
  {s now : PlacementState Rat} {v : Vehicle Rat} {w next last : Work Rat}

/-- What is asked for a base between a job and what is no base. -/
theorem placementQuery_between {before : List Stop} {job : Nat} {query : LocationQuery Rat}
    (found : w.plan.itineraries[r]? =
      some (home, before ++ .destination job :: .base b :: ahead))
    (position : s.tripStart + s.passed = before.length + 1)
    (unclosed : ahead.head?.all (·.isDestination) = true)
    (asked : placementQuery p w.plan r s = .ok query) :
    p.vehicle home = .ok query.vehicle ∧ p.Ahead query.vehicle ahead query.next ∧
      ∃ d, p.destination job = .ok d ∧ query.previous = some d.location := by
  obtain ⟨route, here, rfl, whole⟩ := itineraries_eq_some.mp found
  obtain ⟨driven, previous, heads⟩ := placementQuery_behind_job here whole position asked
  refine ⟨driven, ?_, previous⟩
  cases ahead with
  | nil =>
      rw [← Except.ok.inj heads]
      exact .finish
  | cons stop rest =>
      obtain ⟨other, rfl⟩ := Stop.isDestination_iff.mp unclosed
      simp only [Problem.headsFor, bind_eq_ok] at heads
      rcases heads with ⟨_, lies, equal⟩
      obtain ⟨d, served, rfl⟩ := stopLocation_destination.mp lies
      rw [← Except.ok.inj equal]
      exact .job served

/-- A visit that has placed all trips it came past, each base where it lies best. -/
structure PlacedBest (p : Problem Rat) (r : Nat) (v : Vehicle Rat) (begins : Plan Rat)
    (stops : List Stop) (passed : List (Trip × Bool)) (trip : List Nat) (s : PlacementState Rat)
    (ahead : List Stop) (w : Work Rat) : Prop
    extends Reduced p r begins stops passed trip [] s ahead w where
  placed : ∀ e ∈ passed, e.2 = true
  follows : w.volumes.Follows p
  best : LiesBest p w.plan.pool v stops (stopsLeft passed)

/-- Where no stop occurs twice, a base stands in one place only. -/
theorem around_base {before before' after after' : List Stop} {job job' : Nat}
    (once : (before ++ .destination job :: .base b :: after).Nodup)
    (same : before ++ .destination job :: .base b :: after =
      before' ++ .destination job' :: .base b :: after') : job = job' ∧ after = after' := by
  have split : (before ++ [.destination job]) ++ Stop.base b :: after =
      before ++ .destination job :: .base b :: after := by simp
  have split' : (before' ++ [.destination job']) ++ Stop.base b :: after' =
      before' ++ .destination job' :: .base b :: after' := by simp
  rw [← split] at once
  obtain ⟨_, behind, apart⟩ := List.nodup_append.mp once
  have front : Stop.base b ∉ before ++ [.destination job] := fun member =>
    apart _ member _ List.mem_cons_self rfl
  obtain ⟨fronts, _, rests⟩ := (List.append_cons_inj_of_notMem front
    (List.nodup_cons.mp behind).1).mp (split.trans (same.trans split'.symm))
  have jobs := (List.append_inj' fronts rfl).2
  simp only [List.cons.injEq, Stop.destination.injEq, and_true] at jobs
  exact ⟨jobs, rests⟩

theorem stopsLeft_of_placed (placed : ∀ e ∈ passed, e.2 = true) :
    stopsLeft passed = passed.flatMap (·.1.stops) := by
  rw [stopsLeft, List.filter_eq_self.mpr placed]

theorem PlacedBest.serves {job : Nat} {d : Destination Rat}
    (placing : PlacedBest p r v begins stops passed trip s (.destination job :: ahead) w)
    (served : p.destination job = .ok d) :
    PlacedBest p r v begins stops passed (trip ++ [job])
      { s with passed := s.passed + 1, load := s.load + d.demand } ahead w :=
  ⟨placing.toReduced.serves served, placing.placed, placing.follows, placing.best⟩

/-- The trip under way is closed where its base lies best. -/
theorem PlacedBest.places {location : Nat} {duration : Duration} {query : LocationQuery Rat}
    (once : stops.Nodup) (serves : ∀ t ∈ closedTrips stops, t.jobs ≠ [])
    (drives : begins.itineraries[r]? = some (home, stops)) (driven : p.vehicle home = .ok v)
    (placing : PlacedBest p r v begins stops passed trip s (.base b :: ahead) w)
    (asked : placementQuery p w.plan r s = .ok query)
    (nearest : p.Nearest query.vehicle query.previous query.next location)
    (places : Places p settings r (stopsLeft passed) trip b ahead location duration w next) :
    PlacedBest p r v begins stops (passed ++ [(⟨trip, b⟩, true)]) [] (s.behind location) ahead next := by
  have reduced := placing.toReduced
  have left := stopsLeft_of_placed placing.placed
  have serving := reduced.trip_ne_nil serves
  obtain ⟨jobs, last, rfl⟩ : ∃ jobs last, trip = jobs ++ [last] :=
    ⟨_, _, (List.dropLast_append_getLast serving).symm⟩
  have whole : stops =
      (stopsLeft passed ++ jobs.map .destination) ++ .destination last :: .base b :: ahead := by
    rw [left, reduced.stops_eq]
    simp
  have here : w.plan.itineraries[r]? = some (home, stops) := by
    rcases reduced.visiting.visits with ⟨vehicle, visits⟩
    rcases reduced.trims.itineraries with ⟨_, found, changed⟩
    cases drives.symm.trans found
    have kept : stopsLeft passed ++ ((jobs ++ [last]).map .destination ++ .base b :: ahead) =
        stops := by simp [whole]
    rw [changed, List.getElem?_set_self (List.getElem?_eq_some_iff.mp found).1, kept]
  have position : s.tripStart + s.passed =
      (stopsLeft passed ++ jobs.map Stop.destination).length + 1 := by
    simp [reduced.visiting.start_eq, reduced.visiting.passed_eq]
    omega
  obtain ⟨drivenToo, heads, d, served, comes⟩ :=
    placementQuery_between (whole ▸ here) position (reduced.unclosed serves) asked
  cases driven.symm.trans drivenToo
  refine ⟨reduced.places places, ?_, ?_, ?_⟩
  · intro e member
    rcases List.mem_append.mp member with earlier | own
    · exact placing.placed e earlier
    · rw [List.mem_singleton.mp own]
  · exact (Volumes.sameLimits_add places.volumes_eq).follows placing.follows
  · intro before job c after split member
    by_cases same : b = c
    · subst same
      obtain ⟨rfl, rfl⟩ : job = last ∧ after = ahead := by
        rw [split] at once
        exact around_base once (split.symm.trans whole)
      exact ⟨d, location, query.next, served, places.locationOf_self, heads, comes ▸ nearest⟩
    · have earlier : .base c ∈ stopsLeft passed := by
        simpa [stopsLeft, Trip.stops, Ne.symm same] using member
      obtain ⟨d', lies, ahead', found, there, headsThere, nearestThere⟩ :=
        placing.best before job c after split earlier
      exact ⟨d', lies, ahead', found, (places.locationOf_of_ne same).trans there, headsThere,
        nearestThere⟩

/-- Where nothing is limited, a visit places all trips it comes past. -/
theorem Proceeds.placesAll (unlimited : settings.Unlimited p) (once : stops.Nodup)
    (serves : ∀ t ∈ closedTrips stops, t.jobs ≠ [])
    (drives : begins.itineraries[r]? = some (home, stops)) (driven : p.vehicle home = .ok v)
    {rest : List Stop} (proceeds : Proceeds p settings r s rest w removed now ahead last)
    (placing : PlacedBest p r v begins stops passed trip s rest w) :
    removed = [] ∧ ∃ passed trip, PlacedBest p r v begins stops passed trip now ahead last := by
  induction proceeds generalizing passed trip with
  | stays s rest w => exact ⟨rfl, passed, trip, placing⟩
  | serves served later inductionHypothesis => exact inductionHypothesis (placing.serves served)
  | places asked choice put later inductionHypothesis =>
      obtain ⟨duration, places⟩ := places_of_putBase placing.visiting asked choice put
      rw [unlimited.provider] at choice
      obtain ⟨location, same, nearest⟩ := cheapestLoadable_nearest unlimited.some_site
        (placing.follows.takes unlimited.uncapped _) choice
      cases same
      exact inductionHypothesis (placing.places once serves drives driven asked nearest places)
  | drops asked choice dropped later inductionHypothesis =>
      rw [unlimited.provider] at choice
      obtain ⟨location, same, _⟩ := cheapestLoadable_nearest unlimited.some_site
        (placing.follows.takes unlimited.uncapped _) choice
      cases same

end

/-! ### The visits of all routes -/

section

variable {p : Problem Rat} {settings : Settings Rat} {r home : Nat} {stops : List Stop}
  {routes removed : List Nat} {w next : Work Rat}

/-- A route that was repaired has a vehicle. -/
theorem vehicle_of_repairRoute {plan after : Plan Rat} {route : Route}
    (done : plan.repairRoute p r = .ok after) (found : after.routes[r]? = some route) :
    ∃ v, p.vehicle route.vehicle = .ok v := by
  simp only [Plan.repairRoute, bind_eq_ok] at done
  rcases done with ⟨_, _, refreshed⟩
  obtain ⟨before, fresh, _, there, rescheduled, _, rfl⟩ := refreshRoute_eq_ok refreshed
  cases (Plan.routes_setRoute_self there).symm.trans found
  rw [(Route.reschedule_eq_ok rescheduled).1]
  simp only [Route.reschedule, bind_eq_ok] at rescheduled
  rcases rescheduled with ⟨v, driven, _⟩
  exact ⟨v, driven⟩

/-- Where nothing is limited, a visit takes no more out of a route than its idle bases. -/
theorem placeRoute_wellSited (unlimited : settings.Unlimited p)
    (drives : w.plan.itineraries[r]? = some (home, stops)) (once : stops.Nodup)
    (follows : w.volumes.Follows p) (done : placeRoute p settings r w = .ok removed next) :
    removed = [] ∧ next.volumes.Follows p ∧
      Trims r stops (splitIdleBases true stops).1 [] w.plan next.plan ∧
      WellSited p next.plan.pool home (splitIdleBases true stops).1 := by
  obtain ⟨plan, route, repaired, found, visited⟩ := placeRoute_eq_ok.mp done
  have tidied := Trims.repairRoute ⟨home, drives⟩ once repaired
  have serves : ∀ t ∈ closedTrips (splitIdleBases true stops).1, t.jobs ≠ [] := by
    intro t member
    rw [closedTrips_splitIdleBases] at member
    simpa using (List.mem_filter.mp member).2
  generalize (splitIdleBases true stops).1 = kept at tidied serves ⊢
  have onceNow := once.sublist tidied.sublist
  obtain ⟨drivesNow, rfl⟩ : plan.itineraries[r]? = some (home, kept) ∧ route.stops = kept := by
    rcases tidied.itineraries with ⟨_, before, changed⟩
    cases drives.symm.trans before
    have now : plan.itineraries[r]? = some (home, kept) := by
      rw [changed, List.getElem?_set_self (List.getElem?_eq_some_iff.mp before).1]
    obtain ⟨_, again, _, rfl⟩ := itineraries_eq_some.mp now
    cases found.symm.trans again
    exact ⟨now, rfl⟩
  obtain ⟨_, again, rfl, _⟩ := itineraries_eq_some.mp drivesNow
  cases found.symm.trans again
  obtain ⟨v, driven⟩ := vehicle_of_repairRoute repaired found
  obtain ⟨now, proceeds⟩ := placeBases_eq_ok.mp visited
  have begins : PlacedBest p r v plan route.stops [] [] ⟨0, 0, .empty, 0, []⟩ route.stops
      { w with plan := plan } := by
    refine ⟨.start tidied.visits w.volumes, ?_, follows, ?_⟩
    · exact fun e member => absurd member List.not_mem_nil
    · exact fun _ _ b _ _ member => absurd member List.not_mem_nil
  obtain ⟨rfl, passed, trip, placing⟩ :=
    proceeds.placesAll unlimited onceNow serves drivesNow driven begins
  -- All trips were placed, so that the visit has come past all bases.
  have whole : route.stops = stopsLeft passed ++ trip.map .destination := by
    have parts := placing.stops_eq
    rwa [List.append_nil, ← stopsLeft_of_placed placing.placed] at parts
  have best : LiesBest p next.plan.pool v route.stops route.stops := by
    intro before job b after split member
    refine placing.best before job b after split ?_
    simpa [whole] using member
  have shaped : InTrips True next.plan.pool route.stops := by
    refine ⟨serves, fun b member => placing.located b ?_, fun no => absurd trivial no⟩
    simpa [whole] using member
  refine ⟨rfl, placing.follows, ?_, shaped.wellShaped.starts, best.basesAtSites shaped.wellShaped,
    fun other drivenToo => ?_⟩
  · have trims := tidied.trans placing.trims
    rwa [List.append_nil, ← whole] at trims
  · cases driven.symm.trans drivenToo
    exact best

/-- The visits of some routes leave each of them with its bases well sited. -/
theorem placeRoutes_wellSited (unlimited : settings.Unlimited p) (apart : w.plan.Apart)
    (distinct : routes.Nodup) (follows : w.volumes.Follows p)
    (done : placeRoutes p settings routes w = .ok removed next) :
    removed = [] ∧ ∀ r ∈ routes, ∀ home stops, w.plan.itineraries[r]? = some (home, stops) →
      next.plan.itineraries[r]? = some (home, (splitIdleBases true stops).1) ∧
        WellSited p next.plan.pool home (splitIdleBases true stops).1 := by
  induction routes generalizing w removed with
  | nil =>
      cases done
      exact ⟨rfl, fun r member => absurd member List.not_mem_nil⟩
  | cons r routes inductionHypothesis =>
      obtain ⟨jobs, middle, later, here, there, rfl⟩ := placeRoutes_cons_eq_ok.mp done
      obtain ⟨fresh, others⟩ := List.nodup_cons.mp distinct
      obtain ⟨plan, _, repaired, _⟩ := placeRoute_eq_ok.mp here
      obtain ⟨stops, home, drives⟩ := visits_of_repairRoute repaired
      obtain ⟨rfl, followsNow, trims, sited⟩ :=
        placeRoute_wellSited unlimited drives (apart.once r stops ⟨home, drives⟩) follows here
      have apartNow := apart.thins trims.thins
      obtain ⟨rfl, each⟩ := inductionHypothesis apartNow others followsNow there
      refine ⟨rfl, fun i member vehicle whole found => ?_⟩
      by_cases same : r = i
      · subst same
        cases drives.symm.trans found
        rcases trims.itineraries with ⟨_, before, changed⟩
        cases drives.symm.trans before
        have now : middle.plan.itineraries[r]? = some (home, (splitIdleBases true stops).1) := by
          rw [changed, List.getElem?_set_self (List.getElem?_eq_some_iff.mp before).1]
        have sheds := placeRoutes_sheds apartNow others there
        obtain ⟨kept, last, _, stays, _⟩ := sheds.each r _ _ now
        obtain rfl := stays fresh
        exact ⟨last, sited.congr fun b among => sheds.base_eq apartNow fresh trims.visits among⟩
      · have later := (List.mem_cons.mp member).resolve_left (Ne.symm same)
        exact each i later vehicle whole ((trims.others same).trans found)

/-- Where only sites are offered, a placement that fails does so by a fault. -/
theorem placeAll_fault (offersSites : settings.OffersSites p) (follows : w.volumes.Follows p) :
    Ends (placeAll p settings) (fun _ next => next.volumes.Follows p)
      (fun e _ => ∀ reason, e ≠ .refused reason) w := by
  simp only [placeAll, ends_bind, ends_modify, ends_get]
  refine placeRoutes_ends (fun _ w => w.volumes.Follows p) (fun visited r rest w _ follows => ?_)
    (Volumes.follows_clear follows)
  refine placeRoute_ends (fun e failed => (NeverRefuses.repairRoute p w.plan r).isFault failed)
    fun plan stops repaired visits => ?_
  refine (placeBases_ends (w := { w with plan := plan }) (fun _ _ _ w => w.volumes.Follows p)
    (fun _ _ _ _ _ follows => follows)
    (fun placed trip b rest w next location duration follows places => ?_)
    (fun placed trip b rest w next follows drops => drops.volumes_eq ▸ follows)
    (fun placed trip rest s w e follows _ halts =>
      halts.isFault (offersSites.dependable follows))
    (fun placed trip b rest w plan location duration e _ _ _ _ failed =>
      (NeverRefuses.refreshRoute p plan r).isFault failed)
    follows (visiting_start visits)).mono (fun _ next ends => ?_) fun _ _ failed => failed
  · exact (Volumes.sameLimits_add places.volumes_eq).follows follows
  · rcases ends with ⟨_, _, follows, _⟩
    exact follows

end

end Work

/-- Where no site has a daily limit and all sites are offered, the placement of all bases removes no
job, and leaves every route with its stops but the idle bases.  Under no other choice of sites for the
bases of a route is its cost lower.  Where the problem fits together, only what is excused makes the
placement fail. -/
theorem placeAll_cheapest {p : Problem Rat} {settings : Settings Rat} {w : Work Rat}
    (unlimited : settings.Unlimited p) (once : w.plan.allStops.Nodup)
    (follows : w.volumes.Follows p) :
    Ends (Work.placeAll p settings)
      (fun removed next => removed = [] ∧
        (∀ job, job ∈ next.plan.unassigned ↔ job ∈ w.plan.unassigned) ∧
        next.plan.routes.length = w.plan.routes.length ∧
        ∀ (r : Nat) (route : Route), w.plan.routes[r]? = some route →
          ∃ now, next.plan.routes[r]? = some now ∧ now.vehicle = route.vehicle ∧
            now.stops = (splitIdleBases true route.stops).1 ∧
            BasesAtSites p next.plan.pool now.stops ∧
            ∀ other, BasesAtSites p other now.stops →
              ∀ total, now.transportCost p other = .ok total →
                ∃ cost, now.transportCost p next.plan.pool = .ok cost ∧ cost ≤ total)
      (fun e _ => (∀ reason, e ≠ .refused reason) ∧
        ∀ bases, p.Linked → w.Ready p bases → p.Excuses e) w := by
  have faults := Work.placeAll_fault unlimited.offersSites follows
  rw [Ends] at faults ⊢
  cases result : Work.placeAll p settings w with
  | error e after =>
      rw [result] at faults
      refine ⟨faults, fun bases linked ready => ?_⟩
      have excused := ready.placeAll linked unlimited.reliable
      rwa [Ends, result] at excused
  | ok removed next =>
      simp only [Work.placeAll, modify_bind, get_bind] at result
      have apart := apart_of_nodup once
      have sheds := Work.placeRoutes_sheds (w := { w with volumes := w.volumes.clear }) apart
        List.nodup_range result
      obtain ⟨rfl, each⟩ :=
        Work.placeRoutes_wellSited (w := { w with volumes := w.volumes.clear }) unlimited apart
          List.nodup_range (Volumes.follows_clear follows) result
      refine ⟨rfl, fun job => by simp [sheds.unassigned], ?_, fun r route found => ?_⟩
      · simpa [itineraries] using sheds.length_eq
      · have visits := visits_of_route found
        obtain ⟨last, sited⟩ := each r visits.mem_routeIds _ _ (itineraries_of_route found)
        obtain ⟨now, there, vehicle, stops⟩ := itineraries_eq_some.mp last
        rw [← vehicle, ← stops] at sited
        exact ⟨now, there, vehicle, stops, sited.sites, fun other elsewhere total travels =>
          sited.transportCost_least elsewhere travels⟩

/-- Three jobs and two sites that take any load. -/
def openSites : Problem Rat := { threeJobs with sites := [⟨1, none⟩, ⟨3, none⟩] }

theorem unlimited_openSites :
    (Settings.forProblem openSites .standard).Unlimited openSites := by
  refine ⟨by decide, ?_, rfl, fun v location t => ⟨_, rfl⟩⟩
  intro site member
  rcases List.mem_cons.mp member with rfl | later
  · rfl
  · rw [List.mem_singleton.mp later]

/-- The way to the jobs at five, nought and ten costs thirty, and no other choice of sites makes it
cheaper. -/
theorem placeAll_cheapest_openSites :
    ∃ plan next now, plan.allStops = [.base 2, .destination 0, .base 0, .destination 1, .base 1,
        .destination 2] ∧
      Work.placeAll openSites (.forProblem openSites .standard)
        ⟨plan, .ofSites openSites.sites⟩ = .ok [] next ∧
      next.plan.routes[0]? = some now ∧
      now.stops = [.destination 0, .base 0, .destination 1, .base 1, .destination 2] ∧
      now.transportCost openSites next.plan.pool = .ok 30 ∧
      ∀ other, BasesAtSites openSites other now.stops →
        ∀ total, now.transportCost openSites other = .ok total → 30 ≤ total := by
  have run : (do
      let empty ← Plan.empty openSites
      let plan ← empty.appendStops 0
        [.base 2, .destination 0, .base 0, .destination 1, .base 1, .destination 2]
      match Work.placeAll openSites (.forProblem openSites .standard)
          ⟨plan, .ofSites openSites.sites⟩ with
      | .error e _ => .error e
      | .ok _ next =>
        let now ← next.plan.route 0
        .ok (plan.itineraries, now.stops, ← now.transportCost openSites next.plan.pool)) =
      Except.ok ([(0, [.base 2, .destination 0, .base 0, .destination 1, .base 1,
        .destination 2])], [.destination 0, .base 0, .destination 1, .base 1, .destination 2],
        (30 : Rat)) := by
    decide +kernel
  simp only [bind_eq_ok] at run
  rcases run with ⟨empty, _, plan, _, run⟩
  cases placed : Work.placeAll openSites (.forProblem openSites .standard)
      ⟨plan, .ofSites openSites.sites⟩ with
  | error e after =>
      rw [placed] at run
      cases run
  | ok removed next =>
      rw [placed] at run
      simp only [bind_eq_ok, Except.ok.injEq, Prod.mk.injEq, route_eq_ok] at run
      rcases run with ⟨now, found, cost, travels, itineraries, stops, rfl⟩
      have all : plan.allStops = [.base 2, .destination 0, .base 0, .destination 1, .base 1,
          .destination 2] := by
        rw [allStops, itineraries]
        rfl
      have once : plan.allStops.Nodup := by
        rw [all]
        decide
      have cheapest := placeAll_cheapest (w := ⟨plan, .ofSites openSites.sites⟩)
        unlimited_openSites once (Volumes.follows_ofSites openSites)
      rw [Ends, placed] at cheapest
      obtain ⟨rfl, _, _, each⟩ := cheapest
      obtain ⟨route, begins, _, _⟩ : ∃ route, plan.routes[0]? = some route ∧ _ ∧ _ :=
        itineraries_eq_some.mp (congrArg (·[0]?) itineraries)
      obtain ⟨_, again, _, _, _, least⟩ := each 0 route begins
      cases found.symm.trans again
      refine ⟨plan, next, now, all, placed, found, stops, travels, fun other sited total goes => ?_⟩
      obtain ⟨cost, same, less⟩ := least other sited total goes
      cases travels.symm.trans same
      exact less

end Haulage

/-
Module: Haulage.Unload.Volumes
Purpose: The volumes unloaded at the unload sites, set against what the sites take.
Main exports: Volumes, Volumes.ofSites, Volumes.Spans, Volumes.isLoadable, Volumes.add,
  Volumes.rebuild, Volumes.tracked?_ofSites
-/
import Haulage.Attempt
import Haulage.Plan.Basic

namespace Haulage

/-- The volume unloaded at a location and the limit on it. -/
structure VolumeEntry (α : Type) where
  volume : Load α
  capacity : Option (Load α)
deriving Repr, Inhabited

/-- The volumes at all locations from the lowest unload site to the highest.  A location in between
that is no site has no limit. -/
structure Volumes (α : Type) where
  /-- The lowest location of a site. -/
  first : Nat
  entries : List (VolumeEntry α)
deriving Repr, Inhabited

namespace Volumes

variable {α : Type} [Quantity α]

/-- No volume at any of the given sites.  The limits are entered site by site, so where a location
is listed more than once, that of the last entry counts, also when it is none. -/
def ofSites (sites : List (UnloadSite α)) : Volumes α :=
  let locations := sites.map (·.location)
  match locations.min?, locations.max? with
  | some first, some last =>
    let unlimited : List (VolumeEntry α) := List.replicate (last + 1 - first) ⟨.empty, none⟩
    ⟨first, sites.foldl (fun entries site =>
      entries.set (site.location - first) ⟨.empty, site.dailyCapacity⟩) unlimited⟩
  | _, _ => ⟨0, []⟩

/-- A location between the lowest of some sites and the highest. -/
def Spans (sites : List (UnloadSite α)) (location : Nat) : Prop :=
  (∃ site ∈ sites, site.location ≤ location) ∧ ∃ site ∈ sites, location ≤ site.location

omit [Quantity α] in
instance (sites : List (UnloadSite α)) (location : Nat) : Decidable (Spans sites location) :=
  inferInstanceAs (Decidable (_ ∧ _))

/-- What is known about a location, if it lies within the range of the sites. -/
def tracked? (vs : Volumes α) (location : Nat) : Option (VolumeEntry α) :=
  if location < vs.first then none else vs.entries[location - vs.first]?

/-- What is known about a location within the range of the sites. -/
def entry (vs : Volumes α) (location : Nat) : Except Failure (VolumeEntry α) :=
  match vs.tracked? location with
  | some e => .ok e
  | none => .error (.refused (.untrackedLocation location))

/-- The volume unloaded at a location. -/
def volume (vs : Volumes α) (location : Nat) : Except Failure (Load α) := do
  .ok (← vs.entry location).volume

/-- The limit on the volume at a location. -/
def capacity (vs : Volumes α) (location : Nat) : Except Failure (Option (Load α)) := do
  .ok (← vs.entry location).capacity

/-- Whether a location can take an additional load. -/
def isLoadable (vs : Volumes α) (location : Nat) (load : Load α) : Except Failure Bool := do
  let e ← vs.entry location
  match e.capacity with
  | some capacity => .ok ((e.volume + load).fits capacity)
  | none => .ok true

/-- Adds a load to the volume at a location. -/
def add (vs : Volumes α) (location : Nat) (load : Load α) : Except Failure (Volumes α) := do
  let e ← vs.entry location
  let changed := { e with volume := e.volume + load }
  .ok { vs with entries := vs.entries.set (location - vs.first) changed }

/-- Takes all volumes back to nothing. -/
def clear (vs : Volumes α) : Volumes α :=
  { vs with entries := vs.entries.map fun e => { e with volume := .empty } }

/-- Where the closed trips of a plan unload and with which load, in the order of routes and trips.
A trip without a location or a load in the ledger is left out. -/
def unloadings (plan : Plan α) : List (Nat × Load α) :=
  (plan.routeIds.map fun r =>
    (List.range (plan.ledger.tripCount r)).filterMap fun trip =>
      match plan.ledger.unloadLocation? r trip, plan.ledger.load? r trip with
      | some location, some load => some (location, load)
      | _, _ => none).flatten

/-- Adds loads at their locations, one after the other. -/
def addAll (loads : List (Nat × Load α)) : Attempt (Volumes α) Unit :=
  loads.forM fun (location, load) => do
    set (← Attempt.ofResult ((← get).add location load))

/-- Replaces all volumes by those of the closed trips of a plan. -/
def rebuild (plan : Plan α) : Attempt (Volumes α) Unit := do
  modify clear
  addAll (unloadings plan)

omit [Quantity α] in
/-- Clearing keeps the range of the sites and their limits. -/
theorem tracked?_clear (vs : Volumes α) (location : Nat) :
    vs.clear.tracked? location =
      (vs.tracked? location).map fun e => { e with volume := .empty } := by
  by_cases h : location < vs.first <;> simp [tracked?, clear, h]

/-! ### Limits of the sites -/

omit [Quantity α] in
/-- Of the limits that are entered at a place, the last one stands. -/
theorem getElem?_enterLimits {first : Nat} {sites : List (UnloadSite α)}
    (above : ∀ site ∈ sites, first ≤ site.location) (entries : List (VolumeEntry α)) (i : Nat) :
    (sites.foldl (fun entries site =>
      entries.set (site.location - first) ⟨.empty, site.dailyCapacity⟩) entries)[i]? =
      entries[i]?.map fun e => ((sites.reverse.find? (·.location = first + i)).map fun site =>
        (⟨.empty, site.dailyCapacity⟩ : VolumeEntry α)).getD e := by
  induction sites generalizing entries with
  | nil => simp
  | cons site rest inductionHypothesis =>
      have later : ∀ site ∈ rest, first ≤ site.location := fun other member =>
        above other (List.mem_cons_of_mem site member)
      rw [List.foldl_cons, inductionHypothesis later, List.reverse_cons, List.find?_append,
        List.getElem?_set]
      have lowest := above site List.mem_cons_self
      by_cases here : site.location - first = i
      · have same : site.location = first + i := by omega
        rw [if_pos here, here]
        cases found : rest.reverse.find? (·.location = first + i) with
        | none => by_cases inside : i < entries.length <;> simp [same, inside]
        | some last => by_cases inside : i < entries.length <;> simp [inside]
      · have other : site.location ≠ first + i := by omega
        simp [here, other]

omit [Quantity α] in
/-- At the beginning nothing is unloaded anywhere, and the last entry of a location is its limit. -/
theorem tracked?_ofSites (sites : List (UnloadSite α)) (location : Nat) :
    (ofSites sites).tracked? location =
      if Spans sites location then
        some ⟨.empty, (sites.reverse.find? (·.location = location)).bind (·.dailyCapacity)⟩
      else none := by
  cases lowest : (sites.map (·.location)).min? with
  | none =>
      have none : sites = [] := by simpa using lowest
      simp [none, ofSites, tracked?, Spans]
  | some first =>
      obtain ⟨listed, least⟩ := List.min?_eq_some_iff.mp lowest
      obtain ⟨last, highest⟩ := Option.isSome_iff_exists.mp (List.isSome_max?_of_mem listed)
      obtain ⟨among, greatest⟩ := List.max?_eq_some_iff.mp highest
      have spans : Spans sites location ↔ first ≤ location ∧ location ≤ last := by
        constructor
        · rintro ⟨⟨low, member, below⟩, high, other, above⟩
          exact ⟨Nat.le_trans (least _ (List.mem_map_of_mem member)) below,
            Nat.le_trans above (greatest _ (List.mem_map_of_mem other))⟩
        · rintro ⟨below, above⟩
          obtain ⟨low, member, rfl⟩ := List.mem_map.mp listed
          obtain ⟨high, other, rfl⟩ := List.mem_map.mp among
          exact ⟨⟨low, member, below⟩, high, other, above⟩
      have inside (site : UnloadSite α) (member : site ∈ sites) : first ≤ site.location :=
        least _ (List.mem_map_of_mem member)
      simp only [ofSites, lowest, highest, tracked?, spans]
      by_cases below : location < first
      · rw [if_pos below, if_neg fun within => by omega]
      · have there : first + (location - first) = location := by omega
        rw [if_neg below, getElem?_enterLimits inside, there, List.getElem?_replicate]
        by_cases above : location ≤ last
        · rw [if_pos (by omega), if_pos ⟨by omega, above⟩, Option.map_some]
          cases sites.reverse.find? (·.location = location) with
          | none => rfl
          | some site => rfl
        · rw [if_neg (by omega), if_neg fun within => above within.2, Option.map_none]

end Volumes

end Haulage

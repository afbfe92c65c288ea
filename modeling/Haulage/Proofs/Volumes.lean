/-
Module: Haulage.Proofs.Volumes
Purpose: What the volumes hold after loads were added, and which limits they go by.
Main exports: Volumes.volumeAt, Volumes.add_eq_ok, Volumes.isLoadable_eq_true,
  Volumes.Follows, loadAt, Volumes.get_volumeAt_add
-/
import Haulage.Proofs.Loads
import Haulage.Unload.Volumes

namespace Haulage

variable {α : Type} [Quantity α]

/-- The limit on what a location takes in all, where there is one. -/
def Problem.dailyCapacity (p : Problem α) (location : Nat) : Option (Load α) :=
  (p.siteAt location).bind (·.dailyCapacity)

omit [Quantity α] in
/-- Where no site has a limit, no location has. -/
theorem Problem.dailyCapacity_eq_none {p : Problem α}
    (uncapped : ∀ site ∈ p.sites, site.dailyCapacity = none) (location : Nat) :
    p.dailyCapacity location = none := by
  refine Option.bind_eq_none_iff.mpr fun site there => uncapped site ?_
  rw [siteAt] at there
  exact List.mem_reverse.mp (List.mem_of_find?_eq_some there)

namespace Volumes

/-- The volume at a location, which is empty where none is tracked. -/
def volumeAt (vs : Volumes α) (location : Nat) : Load α :=
  ((vs.tracked? location).map (·.volume)).getD .empty

omit [Quantity α] in
theorem entry_eq_ok {vs : Volumes α} {location : Nat} {e : VolumeEntry α} :
    vs.entry location = .ok e ↔ vs.tracked? location = some e := by
  rw [entry]
  cases vs.tracked? location with
  | none => simp
  | some other => simp

/-- Adding a load changes the entry of its location and no other. -/
theorem add_eq_ok {vs next : Volumes α} {location : Nat} {load : Load α}
    (done : vs.add location load = .ok next) :
    ∃ e, vs.tracked? location = some e ∧ ∀ other, next.tracked? other =
      if other = location then some { e with volume := e.volume + load }
      else vs.tracked? other := by
  simp only [add, bind_eq_ok, entry_eq_ok] at done
  rcases done with ⟨e, found, equal⟩
  cases equal
  refine ⟨e, found, fun other => ?_⟩
  simp only [tracked?] at found ⊢
  split at found
  · cases found
  · rename_i inside
    obtain ⟨short, _⟩ := List.getElem?_eq_some_iff.mp found
    by_cases same : other = location
    · subst same
      rw [if_neg inside, if_pos rfl, List.getElem?_set_self short]
    · rw [if_neg same]
      split
      · rfl
      · rename_i within
        rw [List.getElem?_set_ne]
        omega

/-- What cannot be added was meant for a location that is not tracked. -/
theorem tracked?_of_add_eq_error {vs : Volumes α} {location : Nat} {load : Load α} {e : Failure}
    (failed : vs.add location load = .error e) : vs.tracked? location = none := by
  cases found : vs.tracked? location with
  | none => rfl
  | some entry => simp [add, Volumes.entry, found, bind, Except.bind] at failed

/-- Where a load was asked about, one may be added. -/
theorem add_answers {vs : Volumes α} {location : Nat} {load : Load α} {loadable : Bool}
    (asked : vs.isLoadable location load = .ok loadable) (other : Load α) :
    ∃ next, vs.add location other = .ok next := by
  simp only [isLoadable, bind_eq_ok] at asked
  rcases asked with ⟨e, found, _⟩
  simp only [add, bind_eq_ok]
  exact ⟨_, e, found, rfl⟩

/-- A location takes a load if the volume there leaves room for it. -/
theorem isLoadable_eq_true {vs : Volumes α} {location : Nat} {load : Load α} :
    vs.isLoadable location load = .ok true ↔ ∃ e, vs.tracked? location = some e ∧
      ∀ capacity, e.capacity = some capacity → (e.volume + load).fits capacity = true := by
  simp only [isLoadable, bind_eq_ok, entry_eq_ok]
  refine exists_congr fun e => and_congr_right fun _ => ?_
  cases e.capacity with
  | none => simp
  | some capacity => simp

theorem isLoadable_answers {vs : Volumes α} {location : Nat}
    (tracked : (vs.tracked? location).isSome = true) (load : Load α) :
    ∃ takes, vs.isLoadable location load = .ok takes := by
  obtain ⟨e, found⟩ := Option.isSome_iff_exists.mp tracked
  simp only [isLoadable, bind_eq_ok, entry_eq_ok]
  cases limit : e.capacity with
  | none => exact ⟨true, e, found, by rw [limit]⟩
  | some capacity => exact ⟨_, e, found, by rw [limit]⟩

/-! ### Limits -/

/-- Volumes that track the same locations under the same limits. -/
def SameLimits (vs next : Volumes α) : Prop :=
  ∀ location, (next.tracked? location).map (·.capacity) = (vs.tracked? location).map (·.capacity)

/-- Volumes that track all sites of a problem, under their limits. -/
structure Follows (p : Problem α) (vs : Volumes α) : Prop where
  capacity_eq : ∀ location e, vs.tracked? location = some e →
    e.capacity = p.dailyCapacity location
  sites : ∀ location ∈ p.unloadLocations, (vs.tracked? location).isSome = true

theorem sameLimits_add {vs next : Volumes α} {location : Nat} {load : Load α}
    (done : vs.add location load = .ok next) : SameLimits vs next := by
  obtain ⟨e, found, tracked⟩ := add_eq_ok done
  intro other
  rw [tracked]
  split
  · rename_i same
    rw [same, found]
    rfl
  · rfl

omit [Quantity α] in
theorem SameLimits.isSome_eq {vs next : Volumes α} (same : SameLimits vs next) (location : Nat) :
    (next.tracked? location).isSome = (vs.tracked? location).isSome := by
  have limit := congrArg Option.isSome (same location)
  rwa [Option.isSome_map, Option.isSome_map] at limit

omit [Quantity α] in
theorem SameLimits.trans {vs next last : Volumes α} (same : SameLimits vs next)
    (again : SameLimits next last) : SameLimits vs last :=
  fun location => (again location).trans (same location)

omit [Quantity α] in
theorem sameLimits_clear (vs : Volumes α) : SameLimits vs vs.clear := by
  intro location
  rw [tracked?_clear, Option.map_map]
  rfl

omit [Quantity α] in
theorem SameLimits.follows {p : Problem α} {vs next : Volumes α} (follows : Follows p vs)
    (same : SameLimits vs next) : Follows p next := by
  constructor
  · intro location e found
    have limit := same location
    rw [found, Option.map_some] at limit
    obtain ⟨old, tracked, equal⟩ := Option.map_eq_some_iff.mp limit.symm
    exact equal ▸ follows.capacity_eq location old tracked
  · intro location member
    rw [same.isSome_eq, follows.sites location member]

omit [Quantity α] in
theorem follows_clear {p : Problem α} {vs : Volumes α} (follows : Follows p vs) :
    Follows p vs.clear := (sameLimits_clear vs).follows follows

omit [Quantity α] in
/-- The volumes that a pass begins with follow the problem. -/
theorem follows_ofSites (p : Problem α) : Follows p (.ofSites p.sites) := by
  constructor
  · intro location e found
    rw [tracked?_ofSites] at found
    split at found
    · cases found
      rfl
    · cases found
  · intro location member
    obtain ⟨site, among, rfl⟩ := List.mem_map.mp member
    have spans : Spans p.sites site.location :=
      ⟨⟨site, among, Nat.le_refl _⟩, site, among, Nat.le_refl _⟩
    rw [tracked?_ofSites, if_pos spans]
    rfl

omit [Quantity α] in
@[simp] theorem volumeAt_clear (vs : Volumes α) (location : Nat) :
    vs.clear.volumeAt location = .empty := by
  rw [volumeAt, tracked?_clear]
  cases vs.tracked? location with
  | none => rfl
  | some e => rfl

end Volumes

/-! ### Exact volumes -/

/-- The sum of the given loads at a location, in one dimension. -/
def loadAt (loads : List (Nat × Load Rat)) (location i : Nat) : Rat :=
  (loads.map fun load => if load.1 = location then load.2.get i else 0).sum

@[simp] theorem loadAt_nil (location i : Nat) : loadAt [] location i = 0 := rfl

@[simp] theorem loadAt_cons (load : Nat × Load Rat) (loads : List (Nat × Load Rat))
    (location i : Nat) : loadAt (load :: loads) location i =
      (if load.1 = location then load.2.get i else 0) + loadAt loads location i := rfl

@[simp] theorem loadAt_append (loads others : List (Nat × Load Rat)) (location i : Nat) :
    loadAt (loads ++ others) location i = loadAt loads location i + loadAt others location i := by
  simp [loadAt]

namespace Volumes

theorem get_volumeAt_add {vs next : Volumes Rat} {location : Nat} {load : Load Rat}
    (done : vs.add location load = .ok next) (other i : Nat) :
    (next.volumeAt other).get i =
      (vs.volumeAt other).get i + if location = other then load.get i else 0 := by
  obtain ⟨e, found, tracked⟩ := add_eq_ok done
  rw [volumeAt, tracked]
  by_cases same : other = location
  · subst same
    simp [volumeAt, found, Load.get_add]
  · rw [if_neg same, if_neg (Ne.symm same), add_zero]
    rfl

/-- A location takes a load if the volume there leaves room for it in every dimension. -/
theorem isLoadable_iff_get {vs : Volumes Rat} {location : Nat} {e : VolumeEntry Rat}
    (found : vs.tracked? location = some e) {load : Load Rat} :
    vs.isLoadable location load = .ok true ↔ ∀ capacity, e.capacity = some capacity →
      ∀ i, e.volume.get i + load.get i ≤ capacity.get i := by
  simp only [isLoadable_eq_true, found, Option.some.injEq, exists_eq_left', Load.fits_iff_get,
    Load.get_add]

end Volumes

end Haulage

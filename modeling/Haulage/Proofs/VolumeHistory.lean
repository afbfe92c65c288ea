/-
Module: Haulage.Proofs.VolumeHistory
Purpose: What the volumes hold after any history of additions and clearings.  Within the range of the
  sites they are the loads added since the last clearing, under the limits of the problem; beyond it
  nothing can be asked or added.
Main exports: Volumes.Posting, Volumes.after, Volumes.standing, Volumes.Accounts,
  Volumes.after_accounts, Volumes.after_answers
-/
import Haulage.Proofs.Volumes

namespace Haulage

namespace Volumes

/-! ### Postings -/

section Posting

variable {α : Type} [Quantity α]

/-- What can be done to the volumes. -/
inductive Posting (α : Type) where
  | add (location : Nat) (load : Load α)
  | clear

namespace Posting

/-- Carries a posting out, which can fail. -/
def perform : Posting α → Attempt (Volumes α) Unit
  | add location load => addAll [(location, load)]
  | clear => modify Volumes.clear

/-- The loads that stand after a posting. -/
def record (loads : List (Nat × Load α)) : Posting α → List (Nat × Load α)
  | add location load => loads ++ [(location, load)]
  | clear => []

end Posting

/-- The volumes that a history of postings leaves behind, the oldest one first, whether they succeed
or fail. -/
def after (vs : Volumes α) (history : List (Posting α)) : Volumes α :=
  history.foldl (fun vs posting => Attempt.stateAfter (posting.perform vs)) vs

omit [Quantity α] in
/-- The loads that a history adds after the last clearing. -/
def standing (history : List (Posting α)) : List (Nat × Load α) :=
  history.foldl Posting.record []

/-- An addition that fails changes nothing. -/
theorem perform_add (vs : Volumes α) (location : Nat) (load : Load α) :
    (Posting.add location load).perform vs =
      match vs.add location load with
      | .ok next => .ok () next
      | .error e => .error e vs := by
  show ((Attempt.ofResult (vs.add location load) >>= fun next => set next) >>= fun _ => pure ()) vs = _
  cases vs.add location load <;> rfl

end Posting

/-! ### Range and limits -/

section Range

variable {α : Type} [Quantity α] {sites : List (UnloadSite α)} {vs : Volumes α}

omit [Quantity α] in
/-- Under the limits of some sites exactly their range is tracked. -/
theorem SameLimits.tracked?_eq (same : SameLimits (ofSites sites) vs) (location : Nat) :
    vs.tracked? location = if Spans sites location then
      some ⟨vs.volumeAt location,
        (sites.reverse.find? (·.location = location)).bind (·.dailyCapacity)⟩
    else none := by
  have limit := same location
  rw [tracked?_ofSites] at limit
  rw [volumeAt]
  by_cases spans : Spans sites location
  · rw [if_pos spans, Option.map_some] at limit
    obtain ⟨⟨volume, capacity⟩, found, rfl⟩ := Option.map_eq_some_iff.mp limit
    rw [if_pos spans, found]
    rfl
  · rw [if_neg spans, Option.map_none] at limit
    rw [if_neg spans, Option.map_eq_none_iff.mp limit]

end Range

/-! ### Accounts -/

/-- Volumes over the range of some sites and under their limits, which wherever the range reaches are
those of some loads. -/
structure Accounts (sites : List (UnloadSite Rat)) (loads : List (Nat × Load Rat))
    (vs : Volumes Rat) : Prop where
  limits : SameLimits (ofSites sites) vs
  amounts : ∀ location, Spans sites location → ∀ i,
    (vs.volumeAt location).get i = loadAt loads location i

variable {sites : List (UnloadSite Rat)} {loads : List (Nat × Load Rat)} {vs : Volumes Rat}

theorem accounts_ofSites (sites : List (UnloadSite Rat)) : Accounts sites [] (ofSites sites) := by
  refine ⟨fun _ => rfl, fun location spans i => ?_⟩
  rw [volumeAt, tracked?_ofSites, if_pos spans]
  exact Load.get_empty i

/-- A posting that fails adds beyond the range, where no account is kept. -/
theorem Accounts.perform (accounts : Accounts sites loads vs) (posting : Posting Rat) :
    Accounts sites (posting.record loads) (Attempt.stateAfter (posting.perform vs)) := by
  cases posting with
  | add location load =>
      rw [perform_add]
      cases done : vs.add location load with
      | ok next =>
          refine ⟨accounts.limits.trans (sameLimits_add done), fun other spans i => ?_⟩
          calc (next.volumeAt other).get i
              = (vs.volumeAt other).get i + (if location = other then load.get i else 0) :=
                get_volumeAt_add done other i
            _ = loadAt (loads ++ [(location, load)]) other i := by
                rw [accounts.amounts other spans, loadAt_append, loadAt_cons, loadAt_nil, add_zero]
      | error e =>
          refine ⟨accounts.limits, fun other spans i => ?_⟩
          have beyond := tracked?_of_add_eq_error done
          rw [accounts.limits.tracked?_eq] at beyond
          have elsewhere : location ≠ other := by
            rintro rfl
            rw [if_pos spans] at beyond
            cases beyond
          show (vs.volumeAt other).get i = loadAt (loads ++ [(location, load)]) other i
          rw [accounts.amounts other spans, loadAt_append, loadAt_cons, if_neg elsewhere, loadAt_nil,
            add_zero, add_zero]
  | clear =>
      refine ⟨accounts.limits.trans (sameLimits_clear vs), fun location _ i => ?_⟩
      show (vs.clear.volumeAt location).get i = 0
      rw [volumeAt_clear, Load.get_empty]

theorem Accounts.after (accounts : Accounts sites loads vs) (history : List (Posting Rat)) :
    Accounts sites (history.foldl Posting.record loads) (vs.after history) := by
  induction history generalizing vs loads with
  | nil => exact accounts
  | cons posting history following => exact following (accounts.perform posting)

/-- After any history the volumes are the loads added since the last clearing. -/
theorem after_accounts (sites : List (UnloadSite Rat)) (history : List (Posting Rat)) :
    Accounts sites (standing history) ((ofSites sites).after history) :=
  (accounts_ofSites sites).after history

/-! ### Answers -/

/-- The volumes are a map over the range of the sites.  After any history of additions and clearings,
begun with no volume at the sites of a problem, a location within that range holds in every dimension
the sum of what was added there since the last clearing.  Its limit is that of the problem there, it
takes a load if there is no limit or the volume with that load is within it, and any load can be
added.  At any other location nothing is answered, and what is added fails and changes nothing. -/
theorem after_answers (p : Problem Rat) (history : List (Posting Rat)) (location : Nat) :
    let vs := (ofSites p.sites).after history
    (Spans p.sites location →
      (∃ volume, vs.volume location = .ok volume ∧
        ∀ i, volume.get i = loadAt (standing history) location i) ∧
      vs.capacity location = .ok ((p.siteAt location).bind (·.dailyCapacity)) ∧
      ∀ load, (∃ next, (Posting.add location load).perform vs = .ok () next) ∧
        ∃ takes, vs.isLoadable location load = .ok takes ∧
          (takes = true ↔ ∀ capacity, (p.siteAt location).bind (·.dailyCapacity) = some capacity →
            ∀ i, loadAt (standing history) location i + load.get i ≤ capacity.get i)) ∧
    (¬ Spans p.sites location →
      vs.volume location = .error (.refused (.untrackedLocation location)) ∧
      vs.capacity location = .error (.refused (.untrackedLocation location)) ∧
      ∀ load,
        vs.isLoadable location load = .error (.refused (.untrackedLocation location)) ∧
        (Posting.add location load).perform vs =
          .error (.refused (.untrackedLocation location)) vs) := by
  intro vs
  have accounts : Accounts p.sites (standing history) vs := after_accounts p.sites history
  have tracked := accounts.limits.tracked?_eq location
  refine ⟨fun spans => ?_, fun beyond => ?_⟩
  · rw [if_pos spans] at tracked
    have entry := entry_eq_ok.mpr tracked
    have amounts := accounts.amounts location spans
    refine ⟨⟨vs.volumeAt location, ?_, amounts⟩, ?_, fun load => ⟨?_, ?_⟩⟩
    · rw [volume, entry]; rfl
    · rw [capacity, entry]; rfl
    · rw [perform_add, add, entry]
      exact ⟨_, rfl⟩
    · obtain ⟨takes, asked⟩ := isLoadable_answers (by rw [tracked]; rfl) load
      have loadable : takes = true ↔ vs.isLoadable location load = .ok true := by
        rw [asked, Except.ok.injEq]
      refine ⟨takes, asked, loadable.trans ((isLoadable_iff_get tracked).trans ?_)⟩
      simp only [amounts, Problem.siteAt]
  · rw [if_neg beyond] at tracked
    have entry : vs.entry location = .error (.refused (.untrackedLocation location)) := by
      rw [entry, tracked]
    refine ⟨?_, ?_, fun load => ⟨?_, ?_⟩⟩
    · rw [volume, entry]; rfl
    · rw [capacity, entry]; rfl
    · rw [isLoadable, entry]; rfl
    · rw [perform_add, add, entry]; rfl

/-- A location that is listed twice has the limit of its last entry.  What it held before the clearing
is gone, and what was added beyond the sites never counted. -/
theorem after_answers_listedTwice :
    let sites : List (UnloadSite Rat) := [⟨4, some ⟨[10]⟩⟩, ⟨7, none⟩, ⟨4, some ⟨[5, 1]⟩⟩]
    let vs := (ofSites sites).after [.add 4 ⟨[6]⟩, .clear, .add 9 ⟨[1]⟩, .add 4 ⟨[3]⟩]
    Spans sites 4 ∧ (∃ volume, vs.volume 4 = .ok volume ∧ volume.get 0 = 3) ∧
      vs.capacity 4 = .ok (some ⟨[5, 1]⟩) ∧
      ¬ Spans sites 9 ∧ vs.volume 9 = .error (.refused (.untrackedLocation 9)) := by
  intro sites vs
  let p : Problem Rat := ⟨#[], #[], #[], #[], sites, #[], 0⟩
  have listed : Spans sites 4 := by decide
  have beyond : ¬ Spans sites 9 := by decide
  obtain ⟨⟨volume, held, amounts⟩, limit, _⟩ := (after_answers p _ 4).1 listed
  exact ⟨listed, ⟨volume, held, (amounts 0).trans (by decide +kernel)⟩, limit, beyond,
    ((after_answers p _ 9).2 beyond).1⟩

end Volumes

end Haulage

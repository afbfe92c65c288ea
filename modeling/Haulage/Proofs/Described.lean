/-
Module: Haulage.Proofs.Described
Purpose: The destinations of a problem, described again, describe the same problem.  A description
  may leave out a demand, a duration or a window; written out, it means what it meant.
Main exports: DestinationDocument.explicit, DestinationDocument.build_explicit,
  ProblemDocument.build_explicit, ProblemDocument.build_described
-/
import Haulage.Proofs.TravelRows

namespace Haulage

variable {α : Type} [Quantity α]

/-! ### One destination -/

namespace DestinationDocument

omit [Quantity α] in
/-- The description that says what is taken for granted where it is left out: no demand, no time for
service.  A window that says nothing is left out. -/
def explicit (d : DestinationDocument α) : DestinationDocument α :=
  { d with
    demand := some (d.demand.getD [])
    duration := some (d.duration.getD .zero)
    window := d.window.filter (!·.isEmpty) }

omit [Quantity α] in
/-- Whether a window is left out that says nothing makes no difference. -/
theorem getD_window_explicit (d : DestinationDocument α) :
    d.explicit.window.getD .always = d.window.getD .always := by
  rw [explicit]
  cases d.window with
  | none => rfl
  | some w =>
      rw [Option.filter_some]
      by_cases blank : w.isEmpty = true
      · rw [blank, TimeWindow.isEmpty_iff.mp blank]
        rfl
      · simp [blank]

/-- Written out, a description means what it meant, and is refused for what it was refused for. -/
theorem build_explicit (d : DestinationDocument α) : d.explicit.build = d.build := by
  have demand : ((d.explicit.demand.map Load.mk).getD .empty : Load α) =
      (d.demand.map Load.mk).getD .empty := by
    rw [explicit]
    cases d.demand <;> rfl
  simp only [build, DestinationParts.build, demand, getD_window_explicit d]
  rfl

/-- A destination is described as its own description says, written out. -/
theorem ofDestination_of_build {d : DestinationDocument α} {built : Destination α}
    (done : d.build = .ok built) : ofDestination built = d.explicit := by
  have demand : ((d.demand.map Load.mk).getD .empty).amounts = d.demand.getD [] := by
    cases d.demand <;> rfl
  have window : (if !(d.window.getD .always).isEmpty then some (d.window.getD .always) else none) =
      d.window.filter (!·.isEmpty) := by
    cases d.window with
    | none => rfl
    | some w => rw [Option.filter_some, Option.getD_some]
  simp only [build, mapError_eq_ok, DestinationParts.build] at done
  split at done
  · cases done
  · cases done
    simp only [ofDestination, explicit, Destination.hasWindow, demand]
    exact congrArg (DestinationDocument.mk d.id d.location _ _) window

end DestinationDocument

namespace ProblemDocument

variable [PlaneLength α]

/-- A document means what it meant, and is refused for what it was refused for, if the descriptions
of its destinations are written out. -/
theorem build_explicit (d : ProblemDocument α) :
    { d with destinations := d.destinations.map .explicit }.build = d.build := by
  have same : (d.destinations.map DestinationDocument.explicit).mapM (·.build) =
      d.destinations.mapM (·.build) := by
    rw [List.mapM_map]
    exact congrArg (d.destinations.mapM ·) (funext DestinationDocument.build_explicit)
  rw [build_eq_bind, build_eq_bind, same]
  rfl

/-- The destinations of a problem are described as its document describes them, written out. -/
theorem described_of_build {d : ProblemDocument α} {p : Problem α} (built : d.build = .ok p) :
    p.destinations.toList.map DestinationDocument.ofDestination =
      d.destinations.map DestinationDocument.explicit := by
  simp only [build_eq_bind, bind_eq_ok, mapError_eq_ok] at built
  obtain ⟨destinations, each, vehicles, _, parts⟩ := built
  have taken : destinations = p.destinations.toList :=
    Option.some.inj (ProblemParts.destinations_of_build parts)
  rw [← taken]
  exact map_eq_map_of_mapM_eq_ok (fun _ _ => DestinationDocument.ofDestination_of_build) each

/-- The destinations of a problem, described again, describe it.  The document that has these
descriptions for its own is accepted, and whatever is built from it has the same destinations in the
same order, as many that want to be reached at a certain time, and the same longest leg.  Described
once more, they are described the same. -/
theorem build_described {d : ProblemDocument α} {p : Problem α} (built : d.build = .ok p) :
    let described := p.destinations.toList.map DestinationDocument.ofDestination
    described = d.destinations.map DestinationDocument.explicit ∧
    { d with destinations := described }.build = .ok p ∧
    ∀ q, { d with destinations := described }.build = .ok q →
      q.destinations = p.destinations ∧ q.windowCount = p.windowCount ∧
      q.longestLeg = p.longestLeg ∧
      q.destinations.toList.map DestinationDocument.ofDestination = described := by
  intro described
  have explicit : described = d.destinations.map DestinationDocument.explicit :=
    described_of_build built
  have again : { d with destinations := described }.build = .ok p := by
    rw [explicit, build_explicit, built]
  refine ⟨explicit, again, fun q rebuilt => ?_⟩
  rw [again] at rebuilt
  cases rebuilt
  exact ⟨rfl, rfl, rfl, rfl⟩

end ProblemDocument

/-- A document in which demand, duration and window are left out, said to be nothing, and given. -/
def errands : ProblemDocument Rat :=
  { shuttle [[0, 5], [7, 0]] 0 1 with
    destinations := [⟨"plain", 1, none, none, none⟩, ⟨"blank", 0, some [], some .zero, some .always⟩,
      ⟨"full", 1, some [2, 0], some (.ofSeconds 60), some ⟨none, some .epoch⟩⟩] }

theorem ProblemDocument.build_described_errands :
    ∃ p, @build Rat _ .alongAxis errands = .ok p ∧ p.windowCount = 1 ∧ p.longestLeg = 7 ∧
      @build Rat _ .alongAxis
        { errands with
          destinations := [⟨"plain", 1, some [], some .zero, none⟩,
            ⟨"blank", 0, some [], some .zero, none⟩,
            ⟨"full", 1, some [2, 0], some (.ofSeconds 60), some ⟨none, some .epoch⟩⟩] } = .ok p := by
  have run : (@build Rat _ .alongAxis errands).map (fun p => (p.windowCount, p.longestLeg)) =
      .ok (1, 7) := by decide +kernel
  cases built : @build Rat _ .alongAxis errands with
  | error e =>
      rw [built] at run
      cases run
  | ok p =>
      rw [built] at run
      have counted : p.windowCount = 1 ∧ p.longestLeg = 7 := by simpa [Except.map] using run
      obtain ⟨described, again, _⟩ := @build_described Rat _ .alongAxis _ _ built
      rw [described] at again
      exact ⟨p, rfl, counted.1, counted.2, again⟩

end Haulage

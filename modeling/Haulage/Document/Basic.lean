/-
Module: Haulage.Document.Basic
Purpose: Documents that describe a problem, and the problems they describe.
Main exports: ProblemDocument, DestinationDocument, DocumentError, ProblemDocument.build,
  DestinationDocument.ofDestination
-/
import Haulage.Pass.Parameters

namespace Haulage

/-!
A document says of a problem what a person would say.  Vehicles refer to their profiles by name, and
whatever has a usual value may be left out.
-/

/-- A destination in a document. -/
structure DestinationDocument (α : Type) where
  id : String
  location : Nat
  demand : Option (List α)
  duration : Option Duration
  window : Option TimeWindow
deriving Inhabited

/-- The travel tables of a profile: straight distances, or tables written out. -/
inductive TravelDocument (α : Type) where
  | straight (rounded : Bool)
  | tables (distances times : List (List α)) (costs : Option (List (List α)))
deriving Inhabited

/-- A profile in a document. -/
structure ProfileDocument (α : Type) where
  id : String
  travel : TravelDocument α
deriving Inhabited

/-- A vehicle in a document. -/
structure VehicleDocument (α : Type) where
  id : String
  profile : String
  shift : Option Shift
  capacity : Option (List α)
  firstTripCapacity : Option (List α)
  depot : Option Nat
  returnsToDepot : Option Bool
  unloadDuration : Option Duration
  maximumDestinations : Option Nat
deriving Inhabited

/-- An unload site in a document. -/
structure SiteDocument (α : Type) where
  location : Nat
  dailyCapacity : Option (List α)
deriving Inhabited

/-- A problem in a document, with the parameters of its passes. -/
structure ProblemDocument (α : Type) where
  id : Option String
  points : List (Point α)
  destinations : List (DestinationDocument α)
  profiles : List (ProfileDocument α)
  vehicles : List (VehicleDocument α)
  sites : List (SiteDocument α)
  parameters : Option (Parameters α)
deriving Inhabited

/-! ### Building -/

/-- Why a document describes no problem. -/
inductive DocumentError where
  | destination (id : String) (cause : ProblemError)
  | unknownProfile (vehicle profile : String)
  | vehicle (id : String) (cause : ProblemError)
  | problem (cause : ProblemError)
deriving DecidableEq, Repr

namespace DocumentError

/-- Which part of the document is wrong. -/
def context : DocumentError → String
  | .destination id _ => s!"invalid destination {id}"
  | .unknownProfile v name => s!"vehicle {v} references unknown profile {name}"
  | .vehicle id _ => s!"invalid vehicle {id}"
  | .problem _ => "failed to build the problem"

/-- What is wrong with that part. -/
def cause? : DocumentError → Option ProblemError
  | .destination _ cause => some cause
  | .unknownProfile _ _ => none
  | .vehicle _ cause => some cause
  | .problem cause => some cause

/-- The text of a document error. -/
def message (e : DocumentError) : String :=
  match e.cause? with
  | some cause => e.context ++ ": " ++ cause.message
  | none => e.context

end DocumentError

variable {α : Type} [Quantity α]

/-- The destination that a document describes. -/
def DestinationDocument.build (d : DestinationDocument α) : Except DocumentError (Destination α) :=
  let parts : DestinationParts α :=
    ⟨some d.id, some d.location, d.demand.map .mk, d.duration, d.window⟩
  parts.build.mapError (.destination d.id)

/-- The vehicle that a document describes.  Of profiles with the same name the first counts. -/
def VehicleDocument.build (profiles : List (ProfileDocument α)) (v : VehicleDocument α) :
    Except DocumentError (Vehicle α) :=
  match profiles.findIdx? (·.id = v.profile) with
  | none => .error (.unknownProfile v.id v.profile)
  | some profile =>
    let parts : VehicleParts α :=
      { id := some v.id, profile := some profile, shift := v.shift,
        capacity := v.capacity.map .mk, firstTripCapacity := v.firstTripCapacity.map .mk,
        depot := v.depot, returnsToDepot := v.returnsToDepot,
        unloadDuration := v.unloadDuration, maximumDestinations := v.maximumDestinations }
    parts.build.mapError (.vehicle v.id)

/-- The profile that a document describes, for locations at the given points. -/
def ProfileDocument.build [PlaneLength α] (points : List (Point α)) (d : ProfileDocument α) :
    Profile α :=
  match d.travel with
  | .straight rounded => ⟨d.id, .ofPoints points rounded⟩
  | .tables distances times costs => ⟨d.id, .ofRows distances times costs⟩

/-- The unload site that a document describes. -/
def SiteDocument.build (d : SiteDocument α) : UnloadSite α := ⟨d.location, d.dailyCapacity.map .mk⟩

/-- The problem that a document describes.  Destinations are checked first, then vehicles, and then
how the parts fit together. -/
def ProblemDocument.build [PlaneLength α] (d : ProblemDocument α) :
    Except DocumentError (Problem α) := do
  let destinations ← d.destinations.mapM (·.build)
  let vehicles ← d.vehicles.mapM (·.build d.profiles)
  let parts : ProblemParts α :=
    { points := some d.points, destinations := some destinations, vehicles := some vehicles,
      profiles := some (d.profiles.map (·.build d.points)), sites := some (d.sites.map (·.build)) }
  parts.build.mapError .problem

/-! ### Describing -/

/-- The description of a destination.  Demand and duration are always given, and a window only
where it says something. -/
def DestinationDocument.ofDestination (d : Destination α) : DestinationDocument α :=
  ⟨d.id, d.location, some d.demand.amounts, some d.duration,
    if d.hasWindow then some d.window else none⟩

/-- The description of a destination describes just that destination. -/
theorem DestinationDocument.build_ofDestination {d : Destination α}
    (h : d.demand.isNegative = false) : (ofDestination d).build = .ok d := by
  obtain ⟨id, location, demand, duration, window⟩ := d
  have nonneg : demand.isNegative = false := h
  have same : (if window.isEmpty = false then some window else none).getD .always = window := by
    by_cases e : window.isEmpty = true
    · simp [e, (TimeWindow.isEmpty_iff.1 e).symm]
    · simp [e]
  simp [ofDestination, build, DestinationParts.build, Destination.hasWindow, nonneg, same]
  rfl

end Haulage

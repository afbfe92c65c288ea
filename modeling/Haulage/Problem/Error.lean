/-
Module: Haulage.Problem.Error
Purpose: What can be wrong with the description of a problem.
Main exports: ProblemError, ProblemError.message
-/
import Haulage.Failure

namespace Haulage

/-- Why a description is no problem. -/
inductive ProblemError where
  /-- A destination asks for less than nothing. -/
  | negativeDemand
  /-- A vehicle takes less than nothing. -/
  | negativeCapacity
  /-- Something that has to be given was not. -/
  | missing (field : String)
  /-- A destination lies at a location that is not listed. -/
  | destinationLocation (destination : String) (location : Nat)
  /-- An unload site lies at a location that is not listed. -/
  | siteLocation (location : Nat)
  /-- A vehicle follows a profile that is not listed. -/
  | vehicleProfile (vehicle : String) (profile : Nat)
  /-- A vehicle has its depot at a location that is not listed. -/
  | vehicleDepot (vehicle : String)
  /-- The travel tables of a profile have more or fewer rows than there are locations. -/
  | tableSize (profile : String)
  /-- A cost was needed that the travel tables do not hold. -/
  | fault (fault : Fault)
deriving DecidableEq, Repr

namespace ProblemError

/-- Whether the description is incomplete rather than wrong. -/
def isMissing : ProblemError → Bool
  | .missing _ => true
  | _ => false

/-- The text of a problem error. -/
def message : ProblemError → String
  | .negativeDemand => "invalid problem: destination demand cannot be negative"
  | .negativeCapacity => "invalid problem: vehicle capacity cannot be negative"
  | .missing field => s!"missing required field: {field}"
  | .destinationLocation destination location =>
    s!"invalid problem: destination {destination} references unknown location {location}"
  | .siteLocation location =>
    s!"invalid problem: unload site references unknown location {location}"
  | .vehicleProfile vehicle profile =>
    s!"invalid problem: vehicle {vehicle} references unknown profile {profile}"
  | .vehicleDepot vehicle => s!"invalid problem: vehicle {vehicle} references an unknown depot"
  | .tableSize profile =>
    s!"invalid problem: matrices of profile {profile} do not match the number of locations"
  | .fault _ => "a travel table has no entry for two of the locations"

end ProblemError

end Haulage

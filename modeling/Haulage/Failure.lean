/-
Module: Haulage.Failure
Purpose: The reasons for which an operation on a plan ends without a result.
Main exports: Refusal, Fault, Failure, Refusal.message
-/
import Haulage.Stop

namespace Haulage

/-!
There are two kinds of failure.  A refusal is an answer: the operation was not possible, it says
why, and the plan it leaves can be worked on.  A fault means that the question itself made no sense:
something was looked up that does not exist, or a time was computed that no calendar holds.
-/

/-- Why an operation was refused. -/
inductive Refusal where
  /-- A new trip needs a base to close it and the pool has none left. -/
  | poolExhausted
  /-- A volume was asked for at a location outside the range of the unload sites. -/
  | untrackedLocation (location : Nat)
  /-- A stop was to go to a position beyond the end of the route. -/
  | positionOutOfBounds (position : Nat) (route : Nat)
  /-- A destination was to be inserted that is in a route already. -/
  | destinationAssigned (job : Nat)
  /-- A base was to be inserted that is in a route already. -/
  | baseTaken (base : Nat)
  /-- A proposal inserts a stop that is in a route already. -/
  | stopRouted (stop : Stop)
  /-- A place was sought for a base that is in a route already. -/
  | baseRouted (base : Nat)
deriving DecidableEq, Repr

/-- Why a computation had no answer. -/
inductive Fault where
  /-- Something was looked up beyond the end of its table. -/
  | outOfTable
  /-- A time lies outside the years that the calendar covers. -/
  | beyondCalendar
  /-- A travel time is no number of seconds that a duration can hold. -/
  | unusableTravelTime
  /-- A sum of durations is longer than any duration. -/
  | beyondDurations
deriving DecidableEq, Repr

/-- Why an operation ended without a result. -/
inductive Failure where
  | refused (reason : Refusal)
  | fault (fault : Fault)
deriving DecidableEq, Repr

namespace Refusal

/-- Whether the pool had no base left; every other refusal reports a state that should not be. -/
def isPoolExhausted : Refusal → Bool
  | .poolExhausted => true
  | _ => false

/-- What a refusal says about the state it was found in. -/
def detail : Refusal → String
  | .poolExhausted => "no free base left in the pool"
  | .untrackedLocation location => s!"location {location} is not tracked for daily volume"
  | .positionOutOfBounds position route =>
    s!"position {position} is out of bounds for route {route}"
  | .destinationAssigned job => s!"destination {job} is already assigned"
  | .baseTaken base => s!"base {base} is already taken"
  | .stopRouted stop => s!"{stop.label} is already part of a route"
  | .baseRouted base => s!"base {base} is already part of a route"

/-- The text of a refusal. -/
def message (reason : Refusal) : String :=
  if reason.isPoolExhausted then reason.detail else "inconsistent state: " ++ reason.detail

end Refusal

/-- The entry of a table, or the fault that there is none. -/
def orOutOfTable {β : Type} : Option β → Except Failure β
  | some b => .ok b
  | none => .error (.fault .outOfTable)

@[simp] theorem orOutOfTable_some {β : Type} (b : β) : orOutOfTable (some b) = .ok b := rfl

end Haulage

/-
Module: Haulage.Insertion.Gap
Purpose: The gaps of a route, between one stop and the next, in which another stop could go.
Main exports: Gap, Walk, Walk.scan, Walk.gaps, Walk.tailGap
-/
import Haulage.Plan.Basic

namespace Haulage

/-- A gap of a route. -/
structure Gap where
  /-- The position that a stop inserted here would have. -/
  position : Nat
  previous : Waypoint
  next : Waypoint
  previousLocation : Option Nat
  nextLocation : Option Nat
  previousDeparture : Instant
  /-- The trip that the gap belongs to, which is the number of bases before it. -/
  trip : Nat
deriving DecidableEq, Repr, Inhabited

/-- How far a walk along a route has come. -/
structure Walk where
  /-- The number of stops passed. -/
  position : Nat
  previous : Waypoint
  /-- Where the vehicle is. -/
  place : Option Nat
  departure : Instant
  /-- The number of bases passed. -/
  trip : Nat
deriving DecidableEq, Repr, Inhabited

namespace Walk

variable {α : Type} [Quantity α]

/-- The gap that a walk has come to. -/
def gap (w : Walk) (next : Waypoint) (nextLocation : Option Nat) : Gap :=
  { position := w.position, previous := w.previous, next := next,
    previousLocation := w.place, nextLocation := nextLocation,
    previousDeparture := w.departure, trip := w.trip }

/-- Passes a stop: the gap before it, and the walk after it.  A base without a location counts as
lying where the vehicle is. -/
def pass (p : Problem α) (pool : BasePool) (v : Vehicle α) (w : Walk) (stop : Stop) :
    Except Failure (Gap × Walk) := do
  let here := (← p.stopLocation pool stop) <|> w.place
  let arrival ← p.arrival v w.place here w.departure
  let leaving ← p.endOfStop pool stop arrival
  .ok (w.gap (.at stop) here,
    { position := w.position + 1, previous := .at stop, place := here, departure := leaving,
      trip := if stop.isBase then w.trip + 1 else w.trip })

/-- The gap after the last stop. -/
def lastGap (v : Vehicle α) (w : Walk) : Gap := w.gap .finish v.endLocation

/-- Walks on along the given stops and looks at one gap after the other, until told to stop. -/
def scan {σ : Type} (p : Problem α) (pool : BasePool) (v : Vehicle α)
    (look : σ → Gap → Except Failure (ForInStep σ)) (w : Walk) (s : σ) :
    List Stop → Except Failure σ
  | [] => do
    match ← look s (w.lastGap v) with
    | .done s => .ok s
    | .yield s => .ok s
  | stop :: rest => do
    let (gap, further) ← w.pass p pool v stop
    match ← look s gap with
    | .done s => .ok s
    | .yield s => scan p pool v look further s rest

/-- All gaps from here on along the given stops. -/
def gaps (p : Problem α) (pool : BasePool) (v : Vehicle α) (w : Walk) :
    List Stop → Except Failure (List Gap)
  | [] => .ok [w.lastGap v]
  | stop :: rest => do
    let (gap, further) ← w.pass p pool v stop
    .ok (gap :: (← gaps p pool v further rest))

/-- The gap after the last of the given stops. -/
def tailGap (p : Problem α) (pool : BasePool) (v : Vehicle α) (w : Walk) :
    List Stop → Except Failure Gap
  | [] => .ok (w.lastGap v)
  | stop :: rest => do
    let (_, further) ← w.pass p pool v stop
    tailGap p pool v further rest

/-- The walk of a vehicle that is about to leave its depot. -/
def start (v : Vehicle α) (departure : Instant) : Walk := ⟨0, .start, v.depot, departure, 0⟩

end Walk

end Haulage

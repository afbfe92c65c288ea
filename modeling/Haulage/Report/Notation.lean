/-
Module: Haulage.Report.Notation
Purpose: A short notation for stops, routes and plans.
Main exports: Stop.short, Stop.ofShort?, PlacedStop, Plan.insertAll, Plan.lines
-/
import Haulage.Plan.Basic
import Haulage.Text.Scan
import Haulage.Time.DurationText

namespace Haulage

/-!
A destination is written as the letter D with its number, and a base as the letter B with its
number.  The location of a base follows an at sign, and the time that unloading takes there follows
a slash.
-/

/-- A stop in short. -/
def Stop.short : Stop → String
  | .destination job => s!"D{job}"
  | .base b => s!"B{b}"

/-- A waypoint in short. -/
def Waypoint.short : Waypoint → String
  | .start => "start"
  | .at stop => stop.short
  | .finish => "end"

/-- Reads a stop in short. -/
def Stop.ofShort? (s : String) : Option Stop :=
  match s.toList with
  | 'D' :: cs => (Scan.word? cs).map .destination
  | 'B' :: cs => (Scan.word? cs).map .base
  | _ => none

/-- A stop, and for a base the place where it is put. -/
structure PlacedStop where
  stop : Stop
  place : Option (Nat × Duration)
deriving Repr, Inhabited

namespace PlacedStop

/-- Reads a place: a location, and perhaps the time that unloading takes. -/
def place? (s : String) : Option (Nat × Duration) :=
  match s.splitOn "/" with
  | [location] => do
    let location ← Scan.word? location.toList
    some (location, .zero)
  | [location, duration] => do
    let location ← Scan.word? location.toList
    let duration ← Duration.ofText? duration
    some (location, duration)
  | _ => none

/-- Reads a stop with its place. -/
def ofShort? (s : String) : Option PlacedStop :=
  match s.splitOn "@" with
  | [name] => do
    let stop ← Stop.ofShort? name
    some ⟨stop, none⟩
  | [name, place] => do
    let stop ← Stop.ofShort? name
    let place ← place? place
    some ⟨stop, some place⟩
  | _ => none

end PlacedStop

namespace Plan

variable {α : Type} [Quantity α]

/-- Inserts stops into a route from its start on, and puts bases at their places. -/
def insertAll (plan : Plan α) (r : Nat) (stops : List PlacedStop) : Except Failure (Plan α) :=
  stops.zipIdx.foldlM (fun plan (s, position) => do
    let plan ← plan.insertStop r position s.stop
    match s.stop, s.place with
    | .base b, some (location, duration) => plan.placeBase b location duration
    | _, _ => .ok plan) plan

/-- A stop in short, with the location of a base that has one. -/
def stopText (plan : Plan α) (stop : Stop) : String :=
  match stop with
  | .destination _ => stop.short
  | .base b =>
    match (plan.pool.entries[b]?).bind (·.base.location) with
    | some location => stop.short ++ s!"@{location}"
    | none => stop.short

/-- A plan in lines: every route under its vehicle, the unassigned jobs, and the free bases. -/
def lines (plan : Plan α) : List String :=
  let line (head : String) (words : List String) := String.intercalate " " (head :: words)
  plan.routes.map (fun r => line s!"v{r.vehicle}:" (r.stops.map plan.stopText)) ++
    [line "unassigned:" (plan.unassigned.map toString),
      line "free:" (plan.pool.freeBases.map toString)]

end Plan

end Haulage

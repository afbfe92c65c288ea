/-
Module: Haulage.Problem.Basic
Purpose: The planning problem: destinations to serve, vehicles to serve them with, and sites at
  which vehicles unload between their trips.
Main exports: Problem, ProblemParts, ProblemParts.build, Problem.travelCost, Problem.travelTime
-/
import Haulage.Problem.Destination
import Haulage.Problem.Travel
import Haulage.Problem.Vehicle

namespace Haulage

/-- A location at which vehicles unload, with a limit on what it takes in all. -/
structure UnloadSite (α : Type) where
  location : Nat
  dailyCapacity : Option (Load α)
deriving Inhabited

/-- The way of travelling that several vehicles share. -/
structure Profile (α : Type) where
  id : String
  table : TravelTable α
deriving Inhabited

/-- A planning problem. -/
structure Problem (α : Type) where
  points : Array (Point α)
  destinations : Array (Destination α)
  vehicles : Array (Vehicle α)
  profiles : Array (Profile α)
  sites : List (UnloadSite α)
  /-- For each location, the cost of reaching it from a depot, as an average over all vehicles. -/
  depotCosts : Array α
  /-- The largest cost between two destinations for the first vehicle. -/
  longestLeg : α

namespace Problem

variable {α : Type} [Quantity α]

/-- The destination of a job. -/
def destination (p : Problem α) (job : Nat) : Except Failure (Destination α) :=
  orOutOfTable p.destinations[job]?

/-- A vehicle by its number. -/
def vehicle (p : Problem α) (v : Nat) : Except Failure (Vehicle α) :=
  orOutOfTable p.vehicles[v]?

/-- The unload site at a location.  Where a location is listed more than once, the last entry
counts. -/
def siteAt (p : Problem α) (location : Nat) : Option (UnloadSite α) :=
  p.sites.reverse.find? (·.location = location)

/-- The locations of the unload sites, as they are listed. -/
def unloadLocations (p : Problem α) : List Nat := p.sites.map (·.location)

/-- The number of destinations that want to be reached at a certain time. -/
def windowCount (p : Problem α) : Nat := p.destinations.countP (·.hasWindow)

/-- Whether any destination wants to be reached at a certain time. -/
def hasWindows (p : Problem α) : Bool := p.destinations.any (·.hasWindow)

/-! ### Travel -/

/-- Looks up a table of the profile that a vehicle follows. -/
def lookUp {β : Type} (p : Problem α) (v : Vehicle α) (f : TravelTable α → Except Fault β) :
    Except Failure β :=
  match p.profiles[v.profile]? with
  | some profile => (f profile.table).mapError .fault
  | none => .error (.fault .outOfTable)

/-- The distance that a vehicle travels from one location to another. -/
def travelDistance (p : Problem α) (v : Vehicle α) (origin target : Nat) :
    Except Failure α :=
  p.lookUp v (·.distance origin target)

/-- The cost for a vehicle of travelling between two places.  It is zero where either place is
missing, as on a route that does not return to the depot. -/
def travelCost (p : Problem α) (v : Vehicle α) (origin target : Option Nat) :
    Except Failure α :=
  match origin, target with
  | some a, some b => p.lookUp v (·.cost a b)
  | _, _ => .ok 0

/-- The time for a vehicle to travel between two places, which is none where either is missing. -/
def travelTime (p : Problem α) (v : Vehicle α) (origin target : Option Nat) :
    Except Failure Duration :=
  match origin, target with
  | some a, some b => p.lookUp v (·.time a b)
  | _, _ => .ok .zero

/-- The time at which a vehicle arrives that leaves one place for another. -/
def arrival (p : Problem α) (v : Vehicle α) (origin target : Option Nat)
    (departure : Instant) : Except Failure Instant := do
  departure.after (← p.travelTime v origin target)

/-- What it costs more to pass through a location on the way between two places. -/
def detourCost (p : Problem α) (v : Vehicle α) (previous : Option Nat)
    (location : Nat) (next : Option Nat) : Except Failure α := do
  let direct ← p.travelCost v previous next
  let access ← p.travelCost v previous (some location)
  let egress ← p.travelCost v (some location) next
  .ok (access + egress - direct)

end Problem

/-! ### Building a problem -/

/-- What may be said of a problem before it is complete. -/
structure ProblemParts (α : Type) where
  points : Option (List (Point α))
  destinations : Option (List (Destination α))
  vehicles : Option (List (Vehicle α))
  profiles : Option (List (Profile α))
  sites : Option (List (UnloadSite α))

namespace ProblemParts

variable {α : Type} [Quantity α]

/-- The cost from the depot to each location, added up over the vehicles that have a depot and
divided by the number of all vehicles. -/
def depotCosts (locations : Nat) (vehicles : List (Vehicle α)) (profiles : Array (Profile α)) :
    Except Fault (List α) :=
  if vehicles.isEmpty then .ok (List.replicate locations 0)
  else
    (List.range locations).mapM fun location => do
      let costs ← vehicles.filterMapM fun v => do
        match v.depot, profiles[v.profile]? with
        | none, _ => .ok none
        | some _, none => .error .outOfTable
        | some depot, some profile => .ok (some (← profile.table.cost depot location))
      .ok (Quantity.total costs / Quantity.ofInt vehicles.length)

/-- The largest cost between two destinations for the first vehicle, and at least zero. -/
def longestLeg (destinations : List (Destination α)) (vehicles : List (Vehicle α))
    (profiles : Array (Profile α)) : Except Fault α :=
  match vehicles with
  | [] => .ok 0
  | v :: _ =>
    match profiles[v.profile]? with
    | none => .error .outOfTable
    | some profile =>
      destinations.foldlM (fun longest a =>
        destinations.foldlM (fun longest b => do
          .ok (Quantity.larger longest (← profile.table.cost a.location b.location))) longest) 0

/-- The first thing that is wrong with the references between the parts of a problem: those of
destinations, then of sites, then of vehicles, and last the sizes of the travel tables. -/
def firstError? (locations : Nat) (destinations : List (Destination α))
    (vehicles : List (Vehicle α)) (profiles : List (Profile α)) (sites : List (UnloadSite α)) :
    Option ProblemError :=
  let destinationError := (destinations.find? fun d => locations ≤ d.location).map fun d =>
    .destinationLocation d.id d.location
  let siteError := (sites.find? fun s => locations ≤ s.location).map fun s =>
    .siteLocation s.location
  let vehicleError := vehicles.findSome? fun v =>
    if profiles.length ≤ v.profile then some (.vehicleProfile v.id v.profile)
    else if v.depot.any (locations ≤ ·) then some (.vehicleDepot v.id)
    else none
  let tableError := (profiles.find? fun p => p.table.size ≠ locations).map fun p =>
    .tableSize p.id
  destinationError <|> siteError <|> vehicleError <|> tableError

/-- The problem with the given parts.  Unload sites may be left out; everything else must be there,
and what is referred to must exist. -/
def build (parts : ProblemParts α) : Except ProblemError (Problem α) :=
  match parts.points, parts.destinations, parts.vehicles, parts.profiles with
  | none, _, _, _ => .error (.missing "locations")
  | _, none, _, _ => .error (.missing "destinations")
  | _, _, none, _ => .error (.missing "vehicles")
  | _, _, _, none => .error (.missing "vehicle_profiles")
  | some points, some destinations, some vehicles, some profiles =>
    let sites := parts.sites.getD []
    match firstError? points.length destinations vehicles profiles sites with
    | some e => .error e
    | none => do
      let depotCosts ←
        (depotCosts points.length vehicles profiles.toArray).mapError ProblemError.fault
      let longestLeg ←
        (longestLeg destinations vehicles profiles.toArray).mapError ProblemError.fault
      .ok { points := points.toArray, destinations := destinations.toArray,
            vehicles := vehicles.toArray, profiles := profiles.toArray, sites := sites,
            depotCosts := depotCosts.toArray, longestLeg := longestLeg }

end ProblemParts

end Haulage

/-
Module: Haulage.Unload.Locations
Purpose: Where a trip may unload: the locations that are offered for a base, and the time that
  unloading takes there.
Main exports: LocationQuery, LocationProvider, LocationProvider.nearestBy,
  LocationProvider.nearest, ServiceTimes
-/
import Haulage.Plan.Basic

namespace Haulage

/-- How many trips of a route unload at a location. -/
structure LocationCount where
  location : Nat
  count : Nat
deriving DecidableEq, Repr, Inhabited

/-- Counts one more trip at a location.  Locations stay in the order of their first trips. -/
def countTrip (location : Nat) : List LocationCount → List LocationCount
  | [] => [⟨location, 1⟩]
  | c :: rest =>
    if c.location = location then { c with count := c.count + 1 } :: rest
    else c :: countTrip location rest

/-- The unload locations of the closed trips of a route, with the number of trips at each. -/
def locationCounts {α : Type} (ledger : Ledger α) (route : Nat) : List LocationCount :=
  ((List.range (ledger.tripCount route)).filterMap (ledger.unloadLocation? route)).foldl
    (fun counts location => countTrip location counts) []

/-- What is known about a base when a location is sought for it. -/
structure LocationQuery (α : Type) where
  vehicle : Vehicle α
  /-- Whether no trip follows on the route. -/
  isLastTrip : Bool
  /-- The number of the trip that the base closes. -/
  trip : Nat
  /-- How much of the vehicle the trip fills. -/
  fillPercent : α
  /-- Where other trips of the route unload. -/
  counts : List LocationCount
  previous : Option Nat
  next : Option Nat

/-- The number of trips of the route that unload at a location. -/
def LocationQuery.countAt {α : Type} (q : LocationQuery α) (location : Nat) : Nat :=
  ((q.counts.find? (·.location = location)).map (·.count)).getD 0

/-- Whether as many trips of the route unload at a location as may, if there is a limit. -/
def LocationQuery.isSaturated {α : Type} (q : LocationQuery α) (limit : Option Nat)
    (location : Nat) : Bool := limit.any (· ≤ q.countAt location)

/-- Offers locations for bases.  What a site still takes is not its concern. -/
structure LocationProvider (α : Type) where
  /-- All locations that are ever offered. -/
  locations : List Nat
  /-- The locations offered for one base, the preferred ones first. -/
  offers : LocationQuery α → Except Failure (List Nat)

/-- The time that a vehicle needs to unload at a location when it arrives at a given time. -/
abbrev ServiceTimes (α : Type) := Vehicle α → Nat → Instant → Except Failure Duration

/-- Every vehicle takes its own time, wherever and whenever it unloads. -/
def ServiceTimes.ofVehicle {α : Type} : ServiceTimes α := fun v _ _ => .ok v.unloadTime

namespace LocationProvider

variable {α : Type} [Quantity α]

/-- Offers the same list for every base. -/
def constant (locations : List Nat) : LocationProvider α := ⟨locations, fun _ => .ok locations⟩

/-- Offers all unload sites of a problem. -/
def allSites (p : Problem α) : LocationProvider α := constant p.unloadLocations

/-- The square of the distance between two points. -/
def squaredDistance (a b : Point α) : α :=
  (b.x - a.x) * (b.x - a.x) + (b.y - a.y) * (b.y - a.y)

/-- A way of listing placed locations from a point of the plane on, such as an index of the plane
gives. -/
abbrev NeighbourOrder (α : Type) := Point α → List (Nat × Point α) → List (Nat × Point α)

/-- Lists the closest locations first, and those at the same distance as they were. -/
def byDistance : NeighbourOrder α := fun origin placed =>
  placed.mergeSort fun a b => decide (squaredDistance origin a.2 ≤ squaredDistance origin b.2)

/-- Offers the first `k` locations in the order of neighbours of the stop before the base, of those
at which fewer than `limit` trips of the route unload.  Where there is none, and where it is open
where the vehicle comes from, the whole list is offered. -/
def nearestBy (neighbours : NeighbourOrder α) (p : Problem α) (locations : List Nat) (k : Nat)
    (limit : Option Nat) : Except Failure (LocationProvider α) := do
  let placed ← locations.mapM fun l => do .ok (l, ← orOutOfTable p.points[l]?)
  .ok {
    locations := locations
    offers := fun q =>
      match q.previous with
      | none => .ok locations
      | some previous => do
        let origin ← orOutOfTable p.points[previous]?
        let nearby := (neighbours origin placed).map (·.1)
        let offered := (nearby.filter fun l => !q.isSaturated limit l).take k
        .ok (if offered.isEmpty then locations else offered) }

/-- Offers the `k` nearest locations by their distance. -/
def nearest (p : Problem α) (locations : List Nat) (k : Nat) (limit : Option Nat) :
    Except Failure (LocationProvider α) := nearestBy byDistance p locations k limit

end LocationProvider

end Haulage

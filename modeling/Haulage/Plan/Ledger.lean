/-
Module: Haulage.Plan.Ledger
Purpose: The book of what is known about the trips and stops of each route: loads, unload
  locations, the number of trips and the slack of time.
Main exports: Slack, StopEntry, TripEntry, RouteEntry, Ledger
-/
import Haulage.Load
import Haulage.Stop

namespace Haulage

/-- How far the windows around a place in a route are missed, in seconds.  Before the place the
misses are added up.  After it the largest counts, with its sign, so that a delay can be added to
it; it is absent where nothing after the place can be missed. -/
structure Slack (α : Type) where
  pastWaiting : α
  pastLateness : α
  futureWaiting : Option α
  futureLateness : Option α
deriving DecidableEq, Repr, Inhabited

/-- What is known about a stop. -/
structure StopEntry (α : Type) where
  /-- The load of the trip up to this stop. -/
  load : Load α
  /-- The highest load of the trip from this stop on. -/
  futureMaxLoad : Load α
  slack : Slack α
deriving DecidableEq, Repr, Inhabited

/-- What is known about a trip. -/
structure TripEntry (α : Type) where
  load : Option (Load α)
  unloadLocation : Option Nat
deriving DecidableEq, Repr, Inhabited

/-- What is known about a route. -/
structure RouteEntry (α : Type) where
  trips : List (TripEntry α)
  /-- The number of trips that a base closes. -/
  tripCount : Option Nat
  /-- Whether a job needs a new trip on this route. -/
  needsBase : Option Bool
  stops : List (StopEntry α)
  startSlack : Option (Slack α)
  endSlack : Option (Slack α)
deriving DecidableEq, Repr, Inhabited

/-- The book, with an entry for every route that was ever written to. -/
structure Ledger (α : Type) where
  routes : List (RouteEntry α)
deriving DecidableEq, Repr, Inhabited

namespace Slack

/-- The slack of a place with nothing before or after it. -/
def blank {α : Type} [Zero α] : Slack α := ⟨0, 0, none, none⟩

end Slack

namespace TripEntry

/-- The entry of a trip of which nothing is known. -/
def unknown {α : Type} : TripEntry α := ⟨none, none⟩

end TripEntry

namespace RouteEntry

variable {α : Type}

/-- The entry of a route of which nothing is known. -/
def unknown : RouteEntry α := ⟨[], none, none, [], none, none⟩

/-- Changes the entry of a trip, which is added where it is missing. -/
def modifyTrip (r : RouteEntry α) (trip : Nat) (f : TripEntry α → TripEntry α) : RouteEntry α :=
  { r with trips := (r.trips.rightpad (trip + 1) .unknown).modify trip f }

/-- Forgets everything that follows from the stops of the route.  Whether a new trip is needed is
kept, since that depends on the job at hand. -/
def clearTrips (r : RouteEntry α) : RouteEntry α := { unknown with needsBase := r.needsBase }

end RouteEntry

namespace Ledger

variable {α : Type}

/-- A book of `n` routes of which nothing is known. -/
def blank (n : Nat) : Ledger α := ⟨List.replicate n .unknown⟩

/-- What is known about a route. -/
def entry (l : Ledger α) (route : Nat) : RouteEntry α := l.routes[route]?.getD .unknown

/-- Changes the entry of a route, which is added where it is missing. -/
def modifyEntry (l : Ledger α) (route : Nat) (f : RouteEntry α → RouteEntry α) : Ledger α :=
  ⟨(l.routes.rightpad (route + 1) .unknown).modify route f⟩

/-- What is known about a trip. -/
def trip (l : Ledger α) (route : Nat) (trip : Nat) : TripEntry α :=
  (l.entry route).trips[trip]?.getD .unknown

/-! ### Reading -/

/-- The load of a trip. -/
def load? (l : Ledger α) (route : Nat) (trip : Nat) : Option (Load α) :=
  (l.trip route trip).load

/-- The load of a trip, which is empty where none is known. -/
def load (l : Ledger α) (route : Nat) (trip : Nat) : Load α :=
  (l.load? route trip).getD .empty

/-- Where a trip unloads. -/
def unloadLocation? (l : Ledger α) (route : Nat) (trip : Nat) : Option Nat :=
  (l.trip route trip).unloadLocation

/-- The number of trips of a route that a base closes. -/
def tripCount? (l : Ledger α) (route : Nat) : Option Nat := (l.entry route).tripCount

/-- The number of closed trips, taken to be zero where it is not known. -/
def tripCount (l : Ledger α) (route : Nat) : Nat := (l.tripCount? route).getD 0

/-- Whether the job at hand needs a new trip on a route. -/
def needsBase? (l : Ledger α) (route : Nat) : Option Bool := (l.entry route).needsBase

/-- Whether the job at hand needs a new trip; a route that was not checked is taken to need one. -/
def needsBase (l : Ledger α) (route : Nat) : Bool := (l.needsBase? route).getD true

/-- What is known about a stop. -/
def stop? (l : Ledger α) (route : Nat) (position : Nat) : Option (StopEntry α) :=
  (l.entry route).stops[position]?

/-- The slack at the start of a route. -/
def startSlack? (l : Ledger α) (route : Nat) : Option (Slack α) := (l.entry route).startSlack

/-- The slack at the end of a route. -/
def endSlack? (l : Ledger α) (route : Nat) : Option (Slack α) := (l.entry route).endSlack

/-! ### Writing

Every way of writing also gives back what stood there before. -/

/-- Writes the load of a trip. -/
def putLoad (l : Ledger α) (route : Nat) (trip : Nat) (load : Load α) :
    Option (Load α) × Ledger α :=
  (l.load? route trip,
    l.modifyEntry route (·.modifyTrip trip fun t => { t with load := some load }))

/-- Writes where a trip unloads. -/
def putUnloadLocation (l : Ledger α) (route : Nat) (trip : Nat) (location : Nat) :
    Option Nat × Ledger α :=
  (l.unloadLocation? route trip,
    l.modifyEntry route (·.modifyTrip trip fun t => { t with unloadLocation := some location }))

/-- Writes the number of closed trips. -/
def putTripCount (l : Ledger α) (route : Nat) (count : Nat) : Option Nat × Ledger α :=
  (l.tripCount? route, l.modifyEntry route fun r => { r with tripCount := some count })

/-- Writes whether the job at hand needs a new trip. -/
def putNeedsBase (l : Ledger α) (route : Nat) (needed : Bool) : Option Bool × Ledger α :=
  (l.needsBase? route, l.modifyEntry route fun r => { r with needsBase := some needed })

/-- Writes what is known about the stops of a route. -/
def putStops (l : Ledger α) (route : Nat) (stops : List (StopEntry α)) :
    List (StopEntry α) × Ledger α :=
  ((l.entry route).stops, l.modifyEntry route fun r => { r with stops := stops })

/-- Writes the load at a stop that the book has an entry for. -/
def putStopLoad (l : Ledger α) (route : Nat) (position : Nat) (load : Load α) :
    Option (Ledger α) :=
  if position < (l.entry route).stops.length then
    some (l.modifyEntry route fun r =>
      { r with stops := r.stops.modify position fun s => { s with load := load } })
  else none

/-- Writes the slack at the start of a route. -/
def putStartSlack (l : Ledger α) (route : Nat) (slack : Slack α) :
    Option (Slack α) × Ledger α :=
  (l.startSlack? route, l.modifyEntry route fun r => { r with startSlack := some slack })

/-- Writes the slack at the end of a route. -/
def putEndSlack (l : Ledger α) (route : Nat) (slack : Slack α) :
    Option (Slack α) × Ledger α :=
  (l.endSlack? route, l.modifyEntry route fun r => { r with endSlack := some slack })

/-! ### Clearing -/

/-- Forgets everything that follows from the stops of a route. -/
def clearTrips (l : Ledger α) (route : Nat) : Ledger α := l.modifyEntry route (·.clearTrips)

/-- Forgets everything about a route. -/
def clearRoute (l : Ledger α) (route : Nat) : Ledger α := l.modifyEntry route fun _ => .unknown

/-- Forgets everything. -/
def clear (l : Ledger α) : Ledger α := ⟨l.routes.map fun _ => .unknown⟩

/-! ### One route at a time -/

/-- Filling up a list with a default does not change what is read from it under that default. -/
theorem getD_getElem?_rightpad {β : Type} (xs : List β) (n i : Nat) (d : β) :
    (xs.rightpad n d)[i]?.getD d = xs[i]?.getD d := by
  simp only [List.rightpad, List.getElem?_append, List.getElem?_replicate]
  by_cases h : i < xs.length
  · simp [h]
  · simp only [h, if_false, List.getElem?_eq_none (Nat.le_of_not_lt h), Option.getD_none]
    split <;> rfl

/-- A list that is filled up to a place and changed there reads at all other places as before. -/
theorem getD_getElem?_modify_rightpad {β : Type} (xs : List β) (i j : Nat) (d : β) (f : β → β) :
    ((xs.rightpad (i + 1) d).modify i f)[j]?.getD d =
      if i = j then f (xs[i]?.getD d) else xs[j]?.getD d := by
  by_cases same : i = j
  · subst same
    have inside : i < (xs.rightpad (i + 1) d).length := by
      simp only [List.rightpad, List.length_append, List.length_replicate]
      omega
    rw [if_pos rfl, List.getElem?_modify_eq, ← getD_getElem?_rightpad xs (i + 1) i]
    simp only [List.getElem?_eq_getElem inside, Option.map_eq_map, Option.map_some,
      Option.getD_some]
  · rw [if_neg same, List.getElem?_modify_ne _ _ same, getD_getElem?_rightpad]

/-- A book loses no entries. -/
theorem length_modifyEntry (l : Ledger α) (route : Nat) (f : RouteEntry α → RouteEntry α) :
    l.routes.length ≤ (l.modifyEntry route f).routes.length := by
  simp [modifyEntry, List.rightpad]

@[simp] theorem entry_modifyEntry_self (l : Ledger α) (route : Nat)
    (f : RouteEntry α → RouteEntry α) :
    (l.modifyEntry route f).entry route = f (l.entry route) := by
  rw [entry, modifyEntry, getD_getElem?_modify_rightpad, if_pos rfl, entry]

theorem entry_modifyEntry_of_ne (l : Ledger α) {route other : Nat} (h : route ≠ other)
    (f : RouteEntry α → RouteEntry α) :
    (l.modifyEntry route f).entry other = l.entry other := by
  rw [entry, modifyEntry, getD_getElem?_modify_rightpad, if_neg h, entry]

/-- After a change of a trip its entry is the changed one and every other trip's is as before, also
where the trips had to be filled up. -/
theorem getD_modifyTrip (r : RouteEntry α) (trip other : Nat) (f : TripEntry α → TripEntry α) :
    (r.modifyTrip trip f).trips[other]?.getD .unknown =
      if trip = other then f (r.trips[trip]?.getD .unknown) else r.trips[other]?.getD .unknown :=
  getD_getElem?_modify_rightpad r.trips trip other .unknown f

end Ledger

end Haulage

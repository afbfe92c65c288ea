/-
Module: Haulage.Plan.Pool
Purpose: The pool of bases.  A base closes a trip; while it is in no route it waits in the pool,
  without a location.
Main exports: Base, BasePool, BasePool.take?, BasePool.release, BasePool.refresh
-/
import Haulage.Failure
import Haulage.Time.Duration

namespace Haulage

/-- An unloading stop.  Location and duration stay open until it closes a trip. -/
structure Base where
  id : String
  location : Option Nat
  /-- The time that unloading takes. -/
  duration : Duration
deriving DecidableEq, Repr, Inhabited

namespace Base

/-- A base without a location. -/
def unplaced (id : String) : Base := ⟨id, none, .zero⟩

/-- Whether a base has a location. -/
def isPlaced (b : Base) : Bool := b.location.isSome

/-- Puts a base at a location. -/
def place (b : Base) (location : Nat) (duration : Duration) : Base :=
  { b with location := some location, duration := duration }

/-- Takes a base away from its location. -/
def clear (b : Base) : Base := { b with location := none, duration := .zero }

end Base

/-- A base of the pool, and whether it is free. -/
structure PoolEntry where
  base : Base
  isFree : Bool
deriving DecidableEq, Repr, Inhabited

/-- A pool of interchangeable bases, each free or in a route. -/
structure BasePool where
  entries : List PoolEntry
deriving DecidableEq, Repr, Inhabited

namespace BasePool

/-- The pool of the given bases, all free. -/
def ofBases (bases : List Base) : BasePool := ⟨bases.map fun b => ⟨b, true⟩⟩

/-- The pool of `size` bases without a location, named after their numbers. -/
def ofSize (size : Nat) : BasePool :=
  ofBases ((List.range size).map fun i => .unplaced s!"base{i}")

/-- The pool for a number of jobs: a pass never opens more trips than there are destinations. -/
def forJobs (jobs : Nat) : BasePool := ofSize (max jobs 1)

/-- The number of bases. -/
def size (p : BasePool) : Nat := p.entries.length

/-- A base by its number. -/
def base (p : BasePool) (b : Nat) : Except Failure Base :=
  orOutOfTable (p.entries[b]?.map (·.base))

/-- Whether there is such a base and it is free. -/
def isFree (p : BasePool) (b : Nat) : Bool := (p.entries[b]?.map (·.isFree)).getD false

/-- The free bases, the lowest first. -/
def freeBases (p : BasePool) : List Nat := (List.range p.size).filter p.isFree

/-- The lowest free base. -/
def lowestFree? (p : BasePool) : Option Nat := (List.range p.size).find? p.isFree

/-- Changes one entry. -/
def modifyEntry (p : BasePool) (b : Nat) (f : PoolEntry → PoolEntry) : BasePool :=
  ⟨p.entries.modify b f⟩

/-- Takes a base out of the free ones, if it is one of them. -/
def take? (p : BasePool) (b : Nat) : Option BasePool :=
  if p.isFree b then some (p.modifyEntry b fun e => { e with isFree := false }) else none

/-- Takes the lowest free base. -/
def takeLowest (p : BasePool) : Except Failure (Nat × BasePool) :=
  match p.lowestFree? with
  | some b => .ok (b, p.modifyEntry b fun e => { e with isFree := false })
  | none => .error (.refused .poolExhausted)

/-- Hands a base back, which takes it away from its location, and says whether it was out.
Handing back a free base changes nothing. -/
def release (p : BasePool) (b : Nat) : Except Failure (Bool × BasePool) :=
  if p.isFree b then .ok (false, p)
  else if b < p.size then .ok (true, p.modifyEntry b fun e => ⟨e.base.clear, true⟩)
  else .error (.fault .outOfTable)

/-- Puts a base at a location. -/
def place (p : BasePool) (b : Nat) (location : Nat) (duration : Duration) :
    Except Failure BasePool :=
  if b < p.size then
    .ok (p.modifyEntry b fun e => { e with base := e.base.place location duration })
  else .error (.fault .outOfTable)

/-- Makes exactly those bases free that occur in none of the given routes, and takes the free ones
away from their locations. -/
def refresh (p : BasePool) (routes : List (List Stop)) : Except Failure BasePool :=
  let routed := (routes.map fun stops => stops.filterMap (·.base?)).flatten
  if routed.all (· < p.size) then
    .ok ⟨p.entries.mapIdx fun b e =>
      if routed.contains b then { e with isFree := false } else ⟨e.base.clear, true⟩⟩
  else .error (.fault .outOfTable)

/-! ### What the operations do to the free bases -/

@[simp] theorem size_modifyEntry (p : BasePool) (b : Nat) (f : PoolEntry → PoolEntry) :
    (p.modifyEntry b f).size = p.size := by simp [size, modifyEntry]

theorem isFree_modifyEntry (p : BasePool) (b c : Nat) (f : PoolEntry → PoolEntry) :
    (p.modifyEntry b f).isFree c =
      if b = c then (p.entries[c]?.map fun e => (f e).isFree).getD false else p.isFree c := by
  simp only [isFree, modifyEntry, List.getElem?_modify]
  split
  · cases p.entries[c]? <;> simp
  · simp

theorem isFree_of_lowestFree? {p : BasePool} {b : Nat} (h : p.lowestFree? = some b) :
    p.isFree b = true := List.find?_some h

end BasePool

end Haulage

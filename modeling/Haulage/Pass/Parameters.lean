/-
Module: Haulage.Pass.Parameters
Purpose: The settings of a pass that assigns jobs: the order of the jobs, the seed of random
  orders, the threads and the weight of time windows.
Main exports: JobOrder, Threads, Parameters, Settings, Settings.forProblem
-/
import Haulage.Insertion.Destination

namespace Haulage

/-- The order in which a pass tries the unassigned jobs. -/
inductive JobOrder where
  | asGiven
  | random
  | demand
  | far
  | close
  | timeWindow
deriving DecidableEq, Repr, Inhabited

namespace JobOrder

/-- All orders. -/
def all : List JobOrder := [asGiven, random, demand, far, close, timeWindow]

/-- The name of an order. -/
def name : JobOrder → String
  | asGiven => "AsGiven"
  | random => "Random"
  | demand => "Demand"
  | far => "Far"
  | close => "Close"
  | timeWindow => "TimeWindow"

/-- The order with a name. -/
def ofName? (name : String) : Option JobOrder := all.find? (·.name = name)

@[simp] theorem ofName?_name (o : JobOrder) : ofName? o.name = some o := by cases o <;> rfl

end JobOrder

/-- How many routes are evaluated at the same time. -/
inductive Threads where
  | single
  | auto
  | multi (count : Nat)
deriving DecidableEq, Repr, Inhabited

namespace Threads

/-- The number of threads, unless it is left to the machine. -/
def count? : Threads → Option Nat
  | single => some 1
  | auto => none
  | multi n => some (max n 1)

/-- Whether routes are evaluated side by side.  Where the machine decides, they are. -/
def isParallel (t : Threads) : Bool := t.count?.all (1 < ·)

end Threads

/-- The settings of a pass that can be given with a problem. -/
structure Parameters (α : Type) where
  order : JobOrder
  seed : UInt64
  threads : Threads
  windowWeight : α
deriving Repr, Inhabited

/-- The settings where none are given. -/
def Parameters.standard {α : Type} [Quantity α] : Parameters α :=
  ⟨.asGiven, 2427121, .single, Quantity.ofInt 1⟩

/-- All that a pass goes by. -/
structure Settings (α : Type) where
  parameters : Parameters α
  pricing : WindowPricing α
  provider : LocationProvider α
  serviceTimes : ServiceTimes α
  /-- Whether passes are to end before the next job. -/
  isStopped : Bool

namespace Settings

variable {α : Type} [Quantity α]

/-- The settings for a problem that go by its unload sites and the unload times of its vehicles. -/
def forProblem (p : Problem α) (parameters : Parameters α) : Settings α :=
  { parameters := parameters, pricing := .forProblem p parameters.windowWeight,
    provider := .allSites p, serviceTimes := .ofVehicle, isStopped := false }

/-- What an evaluation under these settings looks at. -/
def survey (s : Settings α) (p : Problem α) (plan : Plan α) (volumes : Volumes α)
    (allowsNewTrips : Bool) : Survey α :=
  { problem := p, plan := plan, volumes := volumes, pricing := s.pricing, provider := s.provider,
    serviceTimes := s.serviceTimes, allowsNewTrips := allowsNewTrips }

end Settings

end Haulage

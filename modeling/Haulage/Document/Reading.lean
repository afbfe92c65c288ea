/-
Module: Haulage.Document.Reading
Purpose: Reading documents from their text.
Main exports: ProblemDocument.ofText?, ProblemDocument.ofJson?, Parameters.ofJson?,
  TimeWindow.ofJson?
-/
import Haulage.Document.Basic
import Haulage.Json.Reader
import Haulage.Json.Record
import Haulage.Time.DurationText
import Haulage.Time.InstantText

namespace Haulage

open Json (Layout)

/-- A point in time in a document. -/
def Instant.ofJson? (j : Json) : Option Instant := j.text?.bind Instant.ofText?

/-- A span of time in a document. -/
def Duration.ofJson? (j : Json) : Option Duration := j.text?.bind Duration.ofText?

/-- A time window in a document. -/
def TimeWindow.ofJson? (j : Json) : Option TimeWindow := do
  let fields ← j.record? (.openEnded ["start", "end"])
  let opens ← fields.optional "start" Instant.ofJson?
  let closes ← fields.optional "end" Instant.ofJson?
  return ⟨opens, closes⟩

/-- A location in a document: the two coordinates of a point. -/
def Point.ofJson? (j : Json) : Option (Point Float) := do
  let fields ← j.record? (.closed ["coordinates"])
  match ← fields.required "coordinates" (Json.list? Json.number?) with
  | [x, y] => some ⟨x, y⟩
  | _ => none

/-- A destination in a document. -/
def DestinationDocument.ofJson? (j : Json) : Option (DestinationDocument Float) := do
  let fields ← j.record? (.closed ["id", "location_id", "demand", "duration", "time_window"])
  let id ← fields.required "id" Json.text?
  let location ← fields.required "location_id" Json.index?
  let demand ← fields.optional "demand" (Json.list? Json.number?)
  let duration ← fields.optional "duration" Duration.ofJson?
  let window ← fields.optional "time_window" TimeWindow.ofJson?
  return ⟨id, location, demand, duration, window⟩

/-- The travel tables of a profile in a document.  They have to be held with all their members, also
with those that are passed over. -/
def TravelDocument.ofJson? (j : Json) : Option (TravelDocument Float) := do
  if !j.isHeld then none
  let table := Json.list? (Json.list? Json.number?)
  let (kind, record) ← j.tagged? "type"
  if kind = "euclidean" then
    let fields ← record.record? ⟨["round"], true, 0⟩
    let rounded ← fields.orDefault "round" false Json.flag?
    return .straight rounded
  else if kind = "explicit" then
    let fields ← record.record? (.openEnded ["distances", "times", "costs"])
    let distances ← fields.required "distances" table
    let times ← fields.required "times" table
    let costs ← fields.optional "costs" table
    return .tables distances times costs
  else none

/-- A profile in a document. -/
def ProfileDocument.ofJson? (j : Json) : Option (ProfileDocument Float) := do
  let fields ← j.record? (.closed ["id", "matrices"])
  let id ← fields.required "id" Json.text?
  let travel ← fields.required "matrices" TravelDocument.ofJson?
  return ⟨id, travel⟩

/-- The shift of a vehicle in a document. -/
def Shift.ofJson? (j : Json) : Option Shift := do
  let fields ← j.record? (.closed ["earliest_start", "latest_end"])
  let earliest ← fields.optional "earliest_start" Instant.ofJson?
  let latest ← fields.optional "latest_end" Instant.ofJson?
  return ⟨earliest, latest⟩

/-- A vehicle in a document. -/
def VehicleDocument.ofJson? (j : Json) : Option (VehicleDocument Float) := do
  let fields ← j.record? (.closed ["id", "profile", "shift", "capacity", "first_trip_capacity",
    "depot_location_id", "should_return_to_depot", "unload_duration", "maximum_destinations"])
  let id ← fields.required "id" Json.text?
  let profile ← fields.required "profile" Json.text?
  let shift ← fields.optional "shift" Shift.ofJson?
  let capacity ← fields.optional "capacity" (Json.list? Json.number?)
  let firstTripCapacity ← fields.optional "first_trip_capacity" (Json.list? Json.number?)
  let depot ← fields.optional "depot_location_id" Json.index?
  let returnsToDepot ← fields.optional "should_return_to_depot" Json.flag?
  let unloadDuration ← fields.optional "unload_duration" Duration.ofJson?
  let maximum ← fields.optional "maximum_destinations" Json.index?
  return ⟨id, profile, shift, capacity, firstTripCapacity, depot, returnsToDepot, unloadDuration,
    maximum⟩

/-- An unload site in a document. -/
def SiteDocument.ofJson? (j : Json) : Option (SiteDocument Float) := do
  let fields ← j.record? (.closed ["location_id", "daily_capacity"])
  let location ← fields.required "location_id" Json.index?
  let dailyCapacity ← fields.optional "daily_capacity" (Json.list? Json.number?)
  return ⟨location, dailyCapacity⟩

/-- The order of jobs in a document. -/
def JobOrder.ofJson? (j : Json) : Option JobOrder :=
  match j.variant? with
  | some (name, .null) => JobOrder.ofName? name
  | _ => none

/-- The threads in a document. -/
def Threads.ofJson? (j : Json) : Option Threads :=
  match j.variant? with
  | some ("Single", .null) => some .single
  | some ("Auto", .null) => some .auto
  | some ("Multi", count) => count.index?.map .multi
  | _ => none

/-- The parameters of passes in a document.  What is left out has its standard value. -/
def Parameters.ofJson? (j : Json) : Option (Parameters Float) := do
  let standard : Parameters Float := .standard
  let fields ← j.record?
    ⟨["sort_strategy", "seed", "insertion_threads", "time_window_weight"], false, 0⟩
  let order ← fields.orDefault "sort_strategy" standard.order JobOrder.ofJson?
  let seed ← fields.orDefault "seed" standard.seed fun j => j.index?.map UInt64.ofNat
  let threads ← fields.orDefault "insertion_threads" standard.threads Threads.ofJson?
  let weight ← fields.orDefault "time_window_weight" standard.windowWeight Json.number?
  return ⟨order, seed, threads, weight⟩

/-- A document that describes a problem. -/
def ProblemDocument.ofJson? (j : Json) : Option (ProblemDocument Float) := do
  let fields ← j.record? (.closed ["id", "locations", "destinations", "vehicle_profiles",
    "vehicles", "unload_sites", "params"])
  let id ← fields.optional "id" Json.text?
  let points ← fields.required "locations" (Json.list? Point.ofJson?)
  let destinations ← fields.required "destinations" (Json.list? DestinationDocument.ofJson?)
  let profiles ← fields.required "vehicle_profiles" (Json.list? ProfileDocument.ofJson?)
  let vehicles ← fields.required "vehicles" (Json.list? VehicleDocument.ofJson?)
  let sites ← fields.required "unload_sites" (Json.list? SiteDocument.ofJson?)
  let parameters ← fields.optional "params" Parameters.ofJson?
  return ⟨id, points, destinations, profiles, vehicles, sites, parameters⟩

/-- Reads a document that describes a problem. -/
def ProblemDocument.ofText? (s : String) : Option (ProblemDocument Float) :=
  (Json.outline? s).bind ProblemDocument.ofJson?

end Haulage

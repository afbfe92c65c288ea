/-
Module: Haulage.Document.Schema
Purpose: The schemas of the documents: which members they have and what these may hold.
Main exports: Schema, problemSchema, solutionSchema
-/
import Haulage.Document.Writing

namespace Haulage

/-- A schema, as the members of the JSON object that states it. -/
abbrev Schema := List (String × Json)

/-- A member of a record. -/
structure SchemaMember where
  name : String
  schema : Schema
  isRequired : Bool
deriving Inhabited

namespace Schema

/-! ### Kinds of values -/

/-- Values of one of the basic types. -/
def ofType (type : String) : Schema := [("type", .str type)]

/-- A text. -/
def text : Schema := ofType "string"

/-- A text of a certain format. -/
def formatted (format : String) : Schema := text ++ [("format", .str format)]

/-- A truth value. -/
def flag : Schema := ofType "boolean"

/-- A number. -/
def real : Schema := ofType "number" ++ [("format", .str "double")]

/-- A whole number from zero on. -/
def whole (format : String) : Schema :=
  ofType "integer" ++ [("format", .str format), ("minimum", .int 0)]

/-- A place in a list, or a count. -/
def index : Schema := whole "uint"

/-- A list of values of one kind. -/
def listOf (item : Schema) : Schema := ofType "array" ++ [("items", .obj item)]

/-- One of several names. -/
def oneName (names : List String) : Schema :=
  text ++ [("enum", .arr (names.map .str))]

/-- A certain name and nothing else. -/
def exactly (name : String) : Schema := text ++ [("const", .str name)]

/-- One of several kinds of values. -/
def oneOf (choices : List Schema) : Schema := [("oneOf", .arr (choices.map .obj))]

/-- The values of a schema that is stated elsewhere. -/
def ofName (name : String) : Schema := [("$ref", .str ("#/$defs/" ++ name))]

/-- The values of a schema, or null. -/
def orNull (schema : Schema) : Schema :=
  match schema.lookup "type" with
  | some type =>
    schema.map fun (name, value) =>
      if name = "type" then (name, .arr [type, .str "null"]) else (name, value)
  | none => [("anyOf", .arr [.obj schema, .obj (ofType "null")])]

/-- A schema with a description. -/
def described (description : String) (schema : Schema) : Schema :=
  ("description", .str description) :: schema

/-- A schema with the value that stands for a missing one. -/
def withDefault (value : Json) (schema : Schema) : Schema := schema ++ [("default", value)]

/-! ### Records -/

/-- A member that has to be there. -/
def required (name : String) (schema : Schema) : SchemaMember := ⟨name, schema, true⟩

/-- A member that may be left out. -/
def optional (name : String) (schema : Schema) : SchemaMember := ⟨name, schema, false⟩

/-- A record that may have further members. -/
def record (members : List SchemaMember) : Schema :=
  let names := (members.filter (·.isRequired)).map fun m => Json.str m.name
  ofType "object" ++ [("properties", .obj (members.map fun m => (m.name, .obj m.schema)))] ++
    if names.isEmpty then [] else [("required", .arr names)]

/-- A record that has no further members. -/
def closedRecord (members : List SchemaMember) : Schema :=
  record members ++ [("additionalProperties", .bool false)]

/-- A schema document: a titled schema with the schemas that it names. -/
def document (title : String) (schema : Schema) (named : List (String × Schema)) : Json :=
  .obj ([("$schema", .str "https://json-schema.org/draft/2020-12/schema"), ("title", .str title)]
    ++ schema ++ [("$defs", .obj (named.map fun (name, s) => (name, .obj s)))])

/-! ### The documents -/

/-- A point in time. -/
def instant : Schema := formatted "date-time"

/-- A span of time. -/
def duration : Schema := formatted "duration"

/-- A list of numbers. -/
def reals : Schema := listOf real

/-- A table of numbers. -/
def realTable : Schema := listOf reals

/-- A time window. -/
def timeWindow : Schema :=
  record [optional "start" (orNull instant), optional "end" (orNull instant)]

/-- A location. -/
def location : Schema :=
  closedRecord [required "coordinates" (reals ++ [("minItems", .int 2), ("maxItems", .int 2)])]

/-- A destination. -/
def destination : Schema :=
  closedRecord [required "id" text, required "location_id" index,
    optional "demand" (orNull reals), optional "duration" (orNull duration),
    optional "time_window" (orNull (ofName "TimeWindow"))]

/-- The travel tables of a profile. -/
def travel : Schema :=
  described "Travel matrices of a profile. Times are in seconds." <|
    oneOf [
      described "Euclidean distance between coordinates, used as distance, time and cost" <|
        record [required "type" (exactly "euclidean"),
          optional "round" (withDefault (.bool false) flag)],
      record [required "type" (exactly "explicit"), required "distances" realTable,
        required "times" realTable, optional "costs" (orNull realTable)]]

/-- A profile. -/
def profile : Schema :=
  closedRecord [required "id" text, required "matrices" (ofName "TravelMatrices")]

/-- The shift of a vehicle. -/
def shift : Schema :=
  closedRecord [optional "earliest_start" (orNull instant), optional "latest_end" (orNull instant)]

/-- A vehicle. -/
def vehicle : Schema :=
  closedRecord [required "id" text, required "profile" text,
    optional "shift" (orNull (ofName "VehicleShift")), optional "capacity" (orNull reals),
    optional "first_trip_capacity" (orNull reals), optional "depot_location_id" (orNull index),
    optional "should_return_to_depot" (orNull flag), optional "unload_duration" (orNull duration),
    optional "maximum_destinations" (orNull index)]

/-- An unload site. -/
def site : Schema :=
  closedRecord [required "location_id" index,
    optional "daily_capacity" (described
      "Volume the site accepts over the whole horizon, unlimited when absent" (orNull reals))]

/-- The order of jobs. -/
def jobOrder : Schema :=
  described "Order in which a recreate pass visits the unassigned jobs." <|
    oneName (JobOrder.all.map (·.name))

/-- The number of threads. -/
def threads : Schema :=
  oneOf [oneName ["Single", "Auto"], closedRecord [required "Multi" index]]

/-- The parameters of passes. -/
def parameters : Schema :=
  let standard : Parameters Float := .standard
  closedRecord [
    optional "sort_strategy" (withDefault (.str standard.order.name)
      (ofName "BestInsertionSortStrategy")),
    optional "seed" (described "Seeds the random job ordering"
      (withDefault (.int standard.seed.toNat) (whole "uint64"))),
    optional "insertion_threads" (described "Threads evaluating routes for one job"
      (withDefault standard.threads.toJson (ofName "Threads"))),
    optional "time_window_weight" (withDefault (.real standard.windowWeight) real)]

/-- A stop in a report. -/
def stopReport : Schema :=
  oneOf [
    record [required "type" (exactly "destination"), required "id" text,
      required "location_id" index, required "trip" index, required "arrival_time" instant,
      required "departure_time" instant, required "waiting_duration" duration],
    record [required "type" (exactly "base"), required "id" text,
      optional "location_id" (orNull index), required "trip" index,
      required "arrival_time" instant, required "departure_time" instant,
      required "load" (described "Volume unloaded at this stop" reals)]]

/-- A route in a report. -/
def routeReport : Schema :=
  record [required "vehicle_id" text, required "departure_time" instant,
    required "end_time" instant, required "transport_costs" real, required "trip_count" index,
    required "activities" (listOf (ofName "Activity"))]

end Schema

open Schema in
/-- The schema of a document that describes a problem. -/
def problemSchema : Json :=
  document "MultiTripProblem"
    (closedRecord [optional "id" (orNull text), required "locations" (listOf (ofName "Location")),
      required "destinations" (listOf (ofName "Destination")),
      required "vehicle_profiles" (listOf (ofName "VehicleProfile")),
      required "vehicles" (listOf (ofName "Vehicle")),
      required "unload_sites" (listOf (ofName "UnloadSite")),
      optional "params" (described "Recreate parameters, command line flags take precedence"
        (orNull (ofName "RecreateParams")))])
    [("BestInsertionSortStrategy", jobOrder), ("Destination", destination),
      ("Location", location), ("RecreateParams", parameters), ("Threads", threads),
      ("TimeWindow", timeWindow), ("TravelMatrices", travel), ("UnloadSite", site),
      ("Vehicle", vehicle), ("VehicleProfile", profile), ("VehicleShift", shift)]

open Schema in
/-- The schema of the report of a plan. -/
def solutionSchema : Json :=
  document "Solution"
    (record [required "routes" (listOf (ofName "Route")),
      required "unassigned" (listOf (ofName "Destination")), required "transport_costs" real,
      required "trip_count" index])
    [("Activity", stopReport), ("Destination", destination), ("Route", routeReport),
      ("TimeWindow", timeWindow)]

end Haulage

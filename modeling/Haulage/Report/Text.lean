/-
Module: Haulage.Report.Text
Purpose: Reports in writing: as a document, and in short as a table.
Main exports: SolutionReport.toJson, SolutionReport.table
-/
import Haulage.Decimal.Fixed
import Haulage.Document.Writing
import Haulage.Report.Solution
import Haulage.Text.Table

namespace Haulage

/-- The report of a stop. -/
def StopReport.toJson : StopReport Float → Json
  | .destination id location trip arrival departure waiting =>
    .obj [("type", .str "destination"), ("id", .str id), ("location_id", .int location),
      ("trip", .int trip), ("arrival_time", arrival.toJson), ("departure_time", departure.toJson),
      ("waiting_duration", waiting.toJson)]
  | .base id location trip arrival departure load =>
    .obj [("type", .str "base"), ("id", .str id),
      ("location_id", Json.orNull (fun l => .int (l : Nat)) location),
      ("trip", .int trip), ("arrival_time", arrival.toJson), ("departure_time", departure.toJson),
      ("load", Json.numbers load)]

/-- The report of a route. -/
def RouteReport.toJson (r : RouteReport Float) : Json :=
  .obj [("vehicle_id", .str r.vehicle), ("departure_time", r.departure.toJson),
    ("end_time", r.endTime.toJson), ("transport_costs", .real r.transportCost),
    ("trip_count", .int r.tripCount), ("activities", .arr (r.stops.map (·.toJson)))]

/-- The report of a plan. -/
def SolutionReport.toJson (s : SolutionReport Float) : Json :=
  .obj [("routes", .arr (s.routes.map (·.toJson))),
    ("unassigned", .arr (s.unassigned.map (·.toJson))),
    ("transport_costs", .real s.transportCost), ("trip_count", .int s.tripCount)]

/-- A cost with two places behind the point, and no sign in front of a zero. -/
def costText (x : Float) : String :=
  let text := fixedPlaces 2 x
  if text = "-0.00" then "0.00" else text

/-- The row of a route in the table. -/
def RouteReport.row (r : RouteReport Float) : List String :=
  [r.vehicle, toString (r.stops.countP (·.isDestination)), toString r.tripCount,
    costText r.transportCost, r.endTime.text]

/-- The table of a plan: its routes and the totals. -/
def SolutionReport.table (s : SolutionReport Float) : Table where
  head := ["Vehicle", "Destinations", "Trips", "Costs", "End"]
  rows := s.routes.map (·.row) ++
    [["Total", s!"{s.unassigned.length} unassigned", toString s.tripCount,
      costText s.transportCost, ""]]

end Haulage

/-
Module: Haulage.Document.Writing
Purpose: Writing the parts of documents.
Main exports: DestinationDocument.toJson, TimeWindow.toJson, Parameters.toJson
-/
import Haulage.Document.Basic
import Haulage.Json.Value
import Haulage.Time.DurationText
import Haulage.Time.InstantText

namespace Haulage

namespace Json

/-- A list of numbers. -/
def numbers (xs : List Float) : Json := .arr (xs.map .real)

/-- A value that may be missing, which is written as null. -/
def orNull {β : Type} (write : β → Json) (value : Option β) : Json :=
  (value.map write).getD .null

end Json

/-- A point in time. -/
def Instant.toJson (t : Instant) : Json := .str t.text

/-- A span of time. -/
def Duration.toJson (d : Duration) : Json := .str d.text

/-- A time window. -/
def TimeWindow.toJson (w : TimeWindow) : Json :=
  .obj [("start", Json.orNull Instant.toJson w.opens), ("end", Json.orNull Instant.toJson w.closes)]

/-- A destination. -/
def DestinationDocument.toJson (d : DestinationDocument Float) : Json :=
  .obj [("id", .str d.id), ("location_id", .int d.location),
    ("demand", Json.orNull Json.numbers d.demand),
    ("duration", Json.orNull Duration.toJson d.duration),
    ("time_window", Json.orNull TimeWindow.toJson d.window)]

/-- The number of threads. -/
def Threads.toJson : Threads → Json
  | .single => .str "Single"
  | .auto => .str "Auto"
  | .multi count => .obj [("Multi", .int count)]

/-- The parameters of passes. -/
def Parameters.toJson (p : Parameters Float) : Json :=
  .obj [("sort_strategy", .str p.order.name), ("seed", .int p.seed.toNat),
    ("insertion_threads", p.threads.toJson), ("time_window_weight", .real p.windowWeight)]

end Haulage

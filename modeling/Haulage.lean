import Haulage.Attempt
import Haulage.CommandLine.Arguments
import Haulage.CommandLine.Files
import Haulage.CommandLine.Path
import Haulage.CommandLine.Program
import Haulage.CommandLine.Request
import Haulage.Decimal.Binary
import Haulage.Decimal.Fixed
import Haulage.Decimal.Power
import Haulage.Decimal.Shortest
import Haulage.Document.Basic
import Haulage.Document.Reading
import Haulage.Document.Schema
import Haulage.Document.Writing
import Haulage.Failure
import Haulage.Insertion.Base
import Haulage.Insertion.Destination
import Haulage.Insertion.Gap
import Haulage.Insertion.Proposal
import Haulage.Insertion.Rules
import Haulage.Json.Reader
import Haulage.Json.Record
import Haulage.Json.Value
import Haulage.Load
import Haulage.Main
import Haulage.Pass.Fill
import Haulage.Pass.JobOrder
import Haulage.Pass.Parameters
import Haulage.Pass.Placement
import Haulage.Pass.Removal
import Haulage.Plan.Basic
import Haulage.Plan.Derive
import Haulage.Plan.Ledger
import Haulage.Plan.Pool
import Haulage.Plan.Route
import Haulage.Plane
import Haulage.Problem.Basic
import Haulage.Problem.Destination
import Haulage.Problem.Error
import Haulage.Problem.Travel
import Haulage.Problem.Vehicle
import Haulage.Proofs.Account
import Haulage.Proofs.Admission
import Haulage.Proofs.AllOrNothing
import Haulage.Proofs.Ascending
import Haulage.Proofs.Attempt
import Haulage.Proofs.Bounds
import Haulage.Proofs.Capacity
import Haulage.Proofs.Changes
import Haulage.Proofs.CheapestBases
import Haulage.Proofs.Computed
import Haulage.Proofs.Conservation
import Haulage.Proofs.ConservedSessions
import Haulage.Proofs.Current
import Haulage.Proofs.CutTrips
import Haulage.Proofs.DailyCapacity
import Haulage.Proofs.Delays
import Haulage.Proofs.Derived
import Haulage.Proofs.Described
import Haulage.Proofs.Draws
import Haulage.Proofs.Edits
import Haulage.Proofs.Evaluations
import Haulage.Proofs.ExactVolumes
import Haulage.Proofs.Exhaustive
import Haulage.Proofs.Faults
import Haulage.Proofs.Finds
import Haulage.Proofs.FirstPlaces
import Haulage.Proofs.Fixpoint
import Haulage.Proofs.ForcedBases
import Haulage.Proofs.Fresh
import Haulage.Proofs.Gap
import Haulage.Proofs.InRange
import Haulage.Proofs.JobOrders
import Haulage.Proofs.Lapses
import Haulage.Proofs.LedgerHistory
import Haulage.Proofs.Leftover
import Haulage.Proofs.LoadLaws
import Haulage.Proofs.Loads
import Haulage.Proofs.NearestLocations
import Haulage.Proofs.OfferCosts
import Haulage.Proofs.Offers
import Haulage.Proofs.Orderly
import Haulage.Proofs.PlacedAgain
import Haulage.Proofs.Prospects
import Haulage.Proofs.Realised
import Haulage.Proofs.Recomputed
import Haulage.Proofs.Reduced
import Haulage.Proofs.Removal
import Haulage.Proofs.Renumbering
import Haulage.Proofs.Replay
import Haulage.Proofs.Revisit
import Haulage.Proofs.RoomFound
import Haulage.Proofs.RuinTogether
import Haulage.Proofs.Served
import Haulage.Proofs.Session
import Haulage.Proofs.Shape
import Haulage.Proofs.ShapedSessions
import Haulage.Proofs.Slack
import Haulage.Proofs.Sound
import Haulage.Proofs.StaleLedger
import Haulage.Proofs.Standing
import Haulage.Proofs.Surveys
import Haulage.Proofs.Threads
import Haulage.Proofs.Tracked
import Haulage.Proofs.TravelRows
import Haulage.Proofs.Trips
import Haulage.Proofs.Turn
import Haulage.Proofs.Undone
import Haulage.Proofs.Unfailing
import Haulage.Proofs.UnfailingSessions
import Haulage.Proofs.UnloadTimes
import Haulage.Proofs.Unloading
import Haulage.Proofs.Visit
import Haulage.Proofs.VolumeHistory
import Haulage.Proofs.Volumes
import Haulage.Proofs.WholeTrips
import Haulage.Quantity
import Haulage.Random.Generator
import Haulage.Random.Shuffle
import Haulage.Report.Notation
import Haulage.Report.Solution
import Haulage.Report.Text
import Haulage.Stop
import Haulage.Text.Lines
import Haulage.Text.Scan
import Haulage.Text.Table
import Haulage.Text.Width
import Haulage.Text.Width.Ranges
import Haulage.Time.Calendar
import Haulage.Time.Duration
import Haulage.Time.DurationText
import Haulage.Time.Instant
import Haulage.Time.InstantText
import Haulage.Time.Window
import Haulage.Unload.Locations
import Haulage.Unload.Room
import Haulage.Unload.Volumes

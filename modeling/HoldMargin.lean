import HoldMargin.CommandLine.Arguments
import HoldMargin.CommandLine.Files
import HoldMargin.CommandLine.Run
import HoldMargin.Connection
import HoldMargin.Design
import HoldMargin.Design.Json
import HoldMargin.Device
import HoldMargin.Device.Json
import HoldMargin.Device.Projection
import HoldMargin.Device.Validity
import HoldMargin.Entries
import HoldMargin.Finding
import HoldMargin.Finding.Json
import HoldMargin.IdMap
import HoldMargin.IdSet
import HoldMargin.Json
import HoldMargin.Json.Printer
import HoldMargin.Json.Reader
import HoldMargin.Json.Record
import HoldMargin.Length
import HoldMargin.Main
import HoldMargin.Measurement
import HoldMargin.Netlist
import HoldMargin.Occupancy
import HoldMargin.Pass
import HoldMargin.PassError
import HoldMargin.Placement
import HoldMargin.Proofs.Accounted
import HoldMargin.Proofs.Apart
import HoldMargin.Proofs.Bounded
import HoldMargin.Proofs.Carried
import HoldMargin.Proofs.Charged
import HoldMargin.Proofs.Climbing
import HoldMargin.Proofs.Coherent
import HoldMargin.Proofs.Committed
import HoldMargin.Proofs.Connected
import HoldMargin.Proofs.Counted
import HoldMargin.Proofs.Delivered
import HoldMargin.Proofs.Determined
import HoldMargin.Proofs.Drained
import HoldMargin.Proofs.Drawn
import HoldMargin.Proofs.Exhausted
import HoldMargin.Proofs.Faithful
import HoldMargin.Proofs.Fed
import HoldMargin.Proofs.Forested
import HoldMargin.Proofs.Gained
import HoldMargin.Proofs.Grown
import HoldMargin.Proofs.Guided
import HoldMargin.Proofs.Hops
import HoldMargin.Proofs.Indexed
import HoldMargin.Proofs.Layered
import HoldMargin.Proofs.Lengths
import HoldMargin.Proofs.Listed
import HoldMargin.Proofs.Loops
import HoldMargin.Proofs.LooseEnds
import HoldMargin.Proofs.Measured
import HoldMargin.Proofs.Metered
import HoldMargin.Proofs.Moved
import HoldMargin.Proofs.Outcome
import HoldMargin.Proofs.Plain
import HoldMargin.Proofs.Projected
import HoldMargin.Proofs.Pruned
import HoldMargin.Proofs.Reached
import HoldMargin.Proofs.Registered
import HoldMargin.Proofs.Reordered
import HoldMargin.Proofs.Reported
import HoldMargin.Proofs.Reread
import HoldMargin.Proofs.Resolved
import HoldMargin.Proofs.Restored
import HoldMargin.Proofs.RoutesKept
import HoldMargin.Proofs.Saved
import HoldMargin.Proofs.Settled
import HoldMargin.Proofs.Shortened
import HoldMargin.Proofs.Sketched
import HoldMargin.Proofs.Sought
import HoldMargin.Proofs.Spared
import HoldMargin.Proofs.Spent
import HoldMargin.Proofs.Steady
import HoldMargin.Proofs.Supplied
import HoldMargin.Proofs.Tallied
import HoldMargin.Proofs.Traced
import HoldMargin.Proofs.Tracked
import HoldMargin.Proofs.Trimmed
import HoldMargin.Proofs.Turns
import HoldMargin.Proofs.Unbroken
import HoldMargin.Proofs.Undercut
import HoldMargin.Proofs.Warned
import HoldMargin.Proofs.Warranted
import HoldMargin.Ranking
import HoldMargin.Repair.Abandonment
import HoldMargin.Repair.Review
import HoldMargin.Repair.Rounds
import HoldMargin.Repair.Session
import HoldMargin.Report
import HoldMargin.Report.Json
import HoldMargin.Route
import HoldMargin.Route.Branch
import HoldMargin.Route.Walk
import HoldMargin.Router
import HoldMargin.Router.Maze
import HoldMargin.Routing
import HoldMargin.Search
import HoldMargin.Settings
import HoldMargin.Settings.Text
import HoldMargin.Snapshot
import HoldMargin.TableId
import HoldMargin.Text
import HoldMargin.Toml.Reader
import HoldMargin.Toml.Scalar
import HoldMargin.Toml.Table
import HoldMargin.Toml.Text
import HoldMargin.Usage

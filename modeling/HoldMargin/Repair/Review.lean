import HoldMargin.Repair.Session
import HoldMargin.Report
import HoldMargin.Router.Maze
/-!
# Repair between two reports

A review reports on a design, repairs it with the maze router and reports
again. One register of fabric nodes is kept from the first report to the
last. What the last report finds is not reported a second time. Where a
pass stops, so does the review, and its error is the last finding.
-/

namespace HoldMargin

/-- The reports of a review that was not stopped. -/
structure ReviewReports where
  before : Report
  summary : SessionSummary
  after : Report
deriving DecidableEq

/-- A review, as far as it came. -/
structure Review where
  findings : List Finding
  /-- The repaired routing. -/
  routing : Routing
  /-- The reports, unless a pass stopped. -/
  reports : Option ReviewReports

namespace Placement

variable (p : Placement)

/-- Reports on a routing, repairs it and reports again; the router gives up
on a sink after `limit` expansions. -/
def review (s : Settings) (limit : Nat) (r : Routing) : Review :=
  let before := p.report s r {}
  let found := Pass.findingsOf before.events
  match before.outcome with
  | .error e => { findings := found ++ [e.toFinding], routing := r, reports := none }
  | .ok first =>
    let repairer : Repairer Unit := { placement := p, settings := s, router := mazeRouter limit }
    let repaired := repairer.repair () r
    let found := found ++ Pass.findingsOf repaired.events
    let routing := repaired.routing
    match repaired.outcome with
    | .error e => { findings := found ++ [e.toFinding], routing, reports := none }
    | .ok summary =>
      let registered := Pass.registerAll {} (before.events ++ repaired.events)
      match (p.report s routing registered).outcome with
      | .error e => { findings := found ++ [e.toFinding], routing, reports := none }
      | .ok last =>
        { findings := found, routing, reports := some { before := first, summary, after := last } }

end Placement

end HoldMargin

import HoldMargin.Ranking
import HoldMargin.Repair.Abandonment
/-!
# Reports

A report sums up the measurement of a design: how much of the fabric it
uses, which connections are the longest, and which are the most at risk. A
report and the summary of a repair session are written as lines of text.
-/

namespace HoldMargin

/-- A connection in a report. -/
structure ReportLine where
  net : String
  driver : String
  sink : String
  length : Nat
deriving DecidableEq

/-- The use of a kind of node in a report. -/
structure KindUse where
  kind : NodeKind
  nodes : Nat
  length : Nat
deriving DecidableEq

/-- A report on a design. -/
structure Report where
  design : String
  netsAnalyzed : Nat
  connections : Nat
  directConnections : Nat
  totalNodes : Nat
  totalLength : Nat
  byKind : List KindUse
  /-- The longest connections. -/
  setup : List ReportLine
  /-- The shortest connections that cross clock regions. -/
  hold : List ReportLine
  unreached : List UnreachedSink
  /-- The registered fabric nodes. -/
  entries : EntryTally
deriving DecidableEq

namespace Placement

variable (p : Placement)

/-- A ranked connection as a report shows it. -/
def reportLine (c : Ranked) : ReportLine where
  net := match p.netlist.net? c.net with
    | some net => net.name
    | none => s!"net#{c.net}"
  driver := p.label c.driver
  sink := p.label c.sink
  length := c.length

/-- The report on a measured design. -/
def reportOn (s : Settings) (m : Measurement) (entries : Entries) : Report where
  design := p.netlist.name
  netsAnalyzed := m.nets.length
  connections := m.connections.length
  directConnections := m.directCount
  totalNodes := m.usage.total.nodes
  totalLength := m.usage.total.length
  byKind := m.usage.rows.map fun (kind, t) => { kind, nodes := t.nodes, length := t.length }
  setup := ((Ranking.setup m.connections).takeTop s.reportSize).1.map p.reportLine
  hold := ((Ranking.hold p s.hold.skewAxis m.connections).takeTop s.reportSize).1.map p.reportLine
  unreached := m.unreached
  entries := entries.counts

/-- Measures a routing and reports on it. The report counts the nodes that
were registered before as well. -/
def report (s : Settings) (r : Routing) (registered : Entries) : Pass Report :=
  let measured := p.measure s r
  { events := measured.events
    outcome := measured.outcome.map fun m =>
      p.reportOn s m (Pass.registerAll registered measured.events) }

end Placement

/-! ## As text -/

/-- A connection as a line. -/
def ReportLine.text (e : ReportLine) : String :=
  Text.line s!"  {e.net}, {e.driver}, {e.sink}, {e.length}"

/-- A row of the table of kinds. -/
def kindLine (kind nodes length : String) : String :=
  Text.line (Text.padRight 12 kind ++ " " ++ Text.padLeft 10 nodes ++ " " ++
    Text.padLeft 12 length)

/-- The connections of a ranking, one a line. -/
def rankingText (es : List ReportLine) : String :=
  if es.isEmpty then Text.line "  (none)" else String.join (es.map ReportLine.text)

/-- A report as text. -/
def Report.text (r : Report) : String :=
  String.join [
    Text.line s!"Design: {r.design}",
    Text.line (s!"Nets: {r.netsAnalyzed}, connections: {r.connections}" ++
      s!" ({r.directConnections} direct)"),
    Text.line (s!"Fabric entries: {r.entries.total}" ++
      s!" ({r.entries.drivers} driver, {r.entries.sinks} sink)"),
    Text.line s!"Total nodes: {r.totalNodes}",
    Text.line s!"Total wirelength: {r.totalLength}",
    if r.byKind.isEmpty then ""
    else
      kindLine "Node kind" "Nodes" "Wirelength" ++
      String.join (r.byKind.map fun row =>
        kindLine row.kind.name (toString row.nodes) (toString row.length)),
    Text.line "",
    Text.line "Setup (longest):",
    rankingText r.setup,
    Text.line "",
    Text.line "Hold (shortest, crossing clock regions):",
    rankingText r.hold,
    if r.unreached.isEmpty then ""
    else Text.line "" ++ Text.line s!"Not fully routed: {r.unreached.length} sink(s)"]

/-- How an abandoned connection was left. -/
def Abandonment.state (a : Abandonment) : String :=
  if a.restored then "previous route restored"
  else
    match a.lengthAfter with
    | some length => s!"left at length {length}"
    | none => "left unrouted"

/-- A summary as text. -/
def SessionSummary.text (s : SessionSummary) : String :=
  String.join (
    Text.line (s!"Hold repair: {s.repaired} repaired, {s.abandoned.length} abandoned" ++
      s!", {s.attempts} attempt(s) over {s.processed} connection(s)") ::
    (if s.limitReached then Text.line "  stopped at the connection limit" else "") ::
    s.abandoned.map fun a =>
      Text.line s!"  abandoned {a.net} ({a.driver} -> {a.sink}): {a.reason.text}, {a.state}")

end HoldMargin

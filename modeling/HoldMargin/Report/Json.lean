import HoldMargin.Device.Json
import HoldMargin.Report
/-!
# Reports as JSON

Reports and summaries are objects of their parts; a length that is not
known is null, and may be left out on reading.
-/

namespace HoldMargin

/-! ## Reports -/

/-- Usage as JSON. -/
def Usage.toJson (u : Usage) : Json :=
  .obj [
    ("total_nodes", .nat u.total.nodes),
    ("total_length", .nat u.total.length),
    ("by_kind", .obj (u.rows.map fun (kind, t) =>
      (kind.name, .obj [("nodes", .nat t.nodes), ("length", .nat t.length)])))]

/-- A sink that is not reached, as JSON. -/
def UnreachedSink.toJson (u : UnreachedSink) : Json :=
  .obj [("net", .str u.net), ("sink", .str u.sink)]

/-- Reads a sink that is not reached. -/
def UnreachedSink.ofJson? (v : Json) : Option UnreachedSink := do
  let r ← jsonNotation.record? ["net", "sink"] v
  return { net := ← r.required "net" Json.text?, sink := ← r.required "sink" Json.text? }

/-- A ranked connection as JSON. -/
def ReportLine.toJson (e : ReportLine) : Json :=
  .obj [
    ("net", .str e.net), ("driver", .str e.driver), ("sink", .str e.sink),
    ("length", .nat e.length)]

/-- Reads a ranked connection. -/
def ReportLine.ofJson? (v : Json) : Option ReportLine := do
  let r ← jsonNotation.record? ["net", "driver", "sink", "length"] v
  let net ← r.required "net" Json.text?
  let driver ← r.required "driver" Json.text?
  let sink ← r.required "sink" Json.text?
  let length ← r.required "length" Json.count?
  return { net, driver, sink, length }

/-- The use of a kind of node as JSON. -/
def KindUse.toJson (row : KindUse) : Json :=
  .obj [("kind", .str row.kind.name), ("nodes", .nat row.nodes), ("length", .nat row.length)]

/-- Reads the use of a kind of node. -/
def KindUse.ofJson? (v : Json) : Option KindUse := do
  let r ← jsonNotation.record? ["kind", "nodes", "length"] v
  let kind ← r.required "kind" NodeKind.ofJson?
  let nodes ← r.required "nodes" Json.count?
  let length ← r.required "length" Json.count?
  return { kind, nodes, length }

/-- Counts of registered nodes as JSON. -/
def EntryTally.toJson (c : EntryTally) : Json :=
  .obj [("total", .nat c.total), ("driver", .nat c.drivers), ("sink", .nat c.sinks)]

/-- Reads counts of registered nodes. -/
def EntryTally.ofJson? (v : Json) : Option EntryTally := do
  let r ← jsonNotation.record? ["total", "driver", "sink"] v
  let total ← r.required "total" Json.count?
  let drivers ← r.required "driver" Json.count?
  let sinks ← r.required "sink" Json.count?
  return { total, drivers, sinks }

/-- A report as JSON. -/
def Report.toJson (r : Report) : Json :=
  .obj [
    ("design", .str r.design),
    ("nets_analyzed", .nat r.netsAnalyzed),
    ("connections", .nat r.connections),
    ("direct_connections", .nat r.directConnections),
    ("total_nodes", .nat r.totalNodes),
    ("total_length", .nat r.totalLength),
    ("by_kind", .list KindUse.toJson r.byKind),
    ("setup", .list ReportLine.toJson r.setup),
    ("hold", .list ReportLine.toJson r.hold),
    ("warnings", .list UnreachedSink.toJson r.unreached),
    ("fabric_entries", r.entries.toJson)]

/-- Reads a report. -/
def Report.ofJson? (v : Json) : Option Report := do
  let r ← jsonNotation.record?
    ["design", "nets_analyzed", "connections", "direct_connections", "total_nodes",
     "total_length", "by_kind", "setup", "hold", "warnings", "fabric_entries"] v
  let design ← r.required "design" Json.text?
  let netsAnalyzed ← r.required "nets_analyzed" Json.count?
  let connections ← r.required "connections" Json.count?
  let directConnections ← r.required "direct_connections" Json.count?
  let totalNodes ← r.required "total_nodes" Json.count?
  let totalLength ← r.required "total_length" Json.count?
  let byKind ← r.required "by_kind" (Json.list? KindUse.ofJson?)
  let setup ← r.required "setup" (Json.list? ReportLine.ofJson?)
  let hold ← r.required "hold" (Json.list? ReportLine.ofJson?)
  let unreached ← r.required "warnings" (Json.list? UnreachedSink.ofJson?)
  let entries ← r.required "fabric_entries" EntryTally.ofJson?
  return {
    design, netsAnalyzed, connections, directConnections, totalNodes, totalLength, byKind
    setup, hold, unreached, entries }

/-! ## Summaries -/

/-- The name of a reason. -/
def RepairFailure.name : RepairFailure → String
  | .routerFailed => "router_failed"
  | .nothingToAvoid => "avoid_set_exhausted"
  | .roundsSpent => "attempt_limit"
  | .sinkUnreached => "sink_unreachable"

/-- The reason of a name. -/
def RepairFailure.ofName? (name : String) : Option RepairFailure :=
  [RepairFailure.routerFailed, .nothingToAvoid, .roundsSpent, .sinkUnreached].find?
    (·.name = name)

/-- An abandonment as JSON. -/
def Abandonment.toJson (a : Abandonment) : Json :=
  .obj [
    ("net", .str a.net), ("driver", .str a.driver), ("sink", .str a.sink),
    ("length_before", .nat a.lengthBefore),
    ("length_after", .optional .nat a.lengthAfter),
    ("attempts", .nat a.attempts),
    ("reason", .str a.reason.name),
    ("restored", .bool a.restored)]

/-- Reads an abandonment. -/
def Abandonment.ofJson? (v : Json) : Option Abandonment := do
  let r ← jsonNotation.record?
    ["net", "driver", "sink", "length_before", "length_after", "attempts", "reason", "restored"] v
  let net ← r.required "net" Json.text?
  let driver ← r.required "driver" Json.text?
  let sink ← r.required "sink" Json.text?
  let lengthBefore ← r.required "length_before" Json.count?
  let lengthAfter ← r.nullable "length_after" Json.count?
  let attempts ← r.required "attempts" (Json.natBelow? UInt32.size)
  let reason ← r.required "reason" fun v => (jsonNotation.case? v).bind RepairFailure.ofName?
  let restored ← r.required "restored" Json.bool?
  return { net, driver, sink, lengthBefore, lengthAfter, attempts, reason, restored }

/-- A summary as JSON. -/
def SessionSummary.toJson (s : SessionSummary) : Json :=
  .obj [
    ("repaired", .nat s.repaired),
    ("abandoned", .list Abandonment.toJson s.abandoned),
    ("processed", .nat s.processed),
    ("attempts", .nat s.attempts),
    ("limit_reached", .bool s.limitReached)]

/-- Reads a summary. -/
def SessionSummary.ofJson? (v : Json) : Option SessionSummary := do
  let r ← jsonNotation.record?
    ["repaired", "abandoned", "processed", "attempts", "limit_reached"] v
  let repaired ← r.required "repaired" Json.count?
  let abandoned ← r.required "abandoned" (Json.list? Abandonment.ofJson?)
  let processed ← r.required "processed" Json.count?
  let attempts ← r.required "attempts" (Json.natBelow? UInt32.size)
  let limitReached ← r.required "limit_reached" Json.bool?
  return { repaired, abandoned, processed, attempts, limitReached }

end HoldMargin

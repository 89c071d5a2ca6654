import HoldMargin.Finding
/-!
# Connections given up on

A connection that repair cannot lengthen is abandoned, for one of four
reasons. Under two of them the sink has lost its route; it then gets the
previous one back, if the policy says so. An abandonment is reported, and a
lost route that was not restored is reported on its own as well.
-/

namespace HoldMargin

/-- Why a connection was given up on. -/
inductive RepairFailure where
  /-- The router found no path. -/
  | routerFailed
  /-- A round had no further node to avoid, and the connection is still short. -/
  | nothingToAvoid
  /-- The last round allowed has been spent. -/
  | roundsSpent
  /-- The router was content, but the route does not reach the sink. -/
  | sinkUnreached
deriving DecidableEq

namespace RepairFailure

/-- Whether the sink is left without its route. -/
def cutsOff : RepairFailure → Bool
  | .routerFailed | .sinkUnreached => true
  | .nothingToAvoid | .roundsSpent => false

/-- The reason in words. -/
def text : RepairFailure → String
  | .routerFailed => "router found no legal detour"
  | .nothingToAvoid => "no further nodes to avoid"
  | .roundsSpent => "attempt limit reached"
  | .sinkUnreached => "sink not reached after reroute"

end RepairFailure

/-- A connection that was given up on. -/
structure Abandonment where
  net : String
  driver : String
  sink : String
  /-- The length when the connection was picked. -/
  lengthBefore : Nat
  /-- The length it is left with, if the sink is still routed. -/
  lengthAfter : Option Nat
  /-- The rounds spent. -/
  attempts : Nat
  reason : RepairFailure
  /-- The previous route was put back. -/
  restored : Bool
deriving DecidableEq

namespace Abandonment

/-- Where an abandonment is reported. -/
def location (a : Abandonment) : Location := .connection a.net a.driver a.sink

/-- The report that a connection was given up on; `threshold` is the length
it was to reach. -/
def finding (a : Abandonment) (threshold : Nat) : Finding where
  severity := .warning
  code := .repairGivenUp
  message := s!"hold repair abandoned: {a.reason.text}"
  location := a.location
  notes :=
    (s!"length {a.lengthAfter.getD a.lengthBefore} after {a.attempts} attempt(s)" ++
      s!", threshold {threshold}") ::
    if a.restored then ["the previous route was restored"] else []

/-- The report that a sink was left without a route. -/
def unroutedFinding (a : Abandonment) : Finding where
  severity := .warning
  code := .routeLost
  message := "sink left unrouted after failed hold repair"
  location := a.location
  help := ["set `rollback_on_failure = true` to keep the previous route"]

/-- All that is reported of an abandonment. -/
def findings (a : Abandonment) (threshold : Nat) : List Finding :=
  a.finding threshold ::
    if a.reason.cutsOff && !a.restored then [a.unroutedFinding] else []

end Abandonment

/-- What a repair session came to. -/
structure SessionSummary where
  /-- The number of connections that reached the threshold. -/
  repaired : Nat
  /-- The connections given up on, in the order they were picked. -/
  abandoned : List Abandonment
  /-- The number of connections picked. -/
  processed : Nat
  /-- The rounds spent on all connections. A count of 32 bits is the same below
  4294967296 rounds. -/
  attempts : Nat
  /-- The session stopped at the limit on connections. -/
  limitReached : Bool
deriving DecidableEq

end HoldMargin

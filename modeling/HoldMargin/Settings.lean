import HoldMargin.Text
/-!
# Settings

What measurement and repair are run with. Every setting has a default;
`Settings.check` refuses settings under which a hop could be free, no
attempt would be made or a report would be empty.
-/

namespace HoldMargin

/-- How the nodes of a route are weighted. -/
structure Weighting where
  /-- The factor on a node's own length. -/
  weight : Nat := 10
  /-- What a fabric node of weighted length zero counts. -/
  zeroLengthFloor : Nat := 3
deriving DecidableEq

/-- The clock-region coordinate along which skew matters. -/
inductive SkewAxis where
  | column
  | row
deriving DecidableEq

/-- When a connection is at risk. -/
structure HoldRule where
  /-- A connection shorter than this is repaired. -/
  minWirelength : Nat := 100
  skewAxis : SkewAxis := .column
deriving DecidableEq

/-- How far repair goes. -/
structure RepairPolicy where
  /-- The most rounds spent on one connection. -/
  maxAttempts : Nat := 16
  /-- The most connections taken up in a session; 0 sets no limit. -/
  maxConnections : Nat := 0
  /-- A sink that lost its route gets the previous one back. -/
  rollbackOnFailure : Bool := true
deriving DecidableEq

/-- What measurement and repair are run with. -/
structure Settings where
  weighting : Weighting := {}
  hold : HoldRule := {}
  repair : RepairPolicy := {}
  /-- The number of connections a ranking shows. -/
  reportSize : Nat := 10
  /-- A net is left out if the name of its driver holds one of these. -/
  skippedDrivers : List String := ["CLK", "BUFG"]
deriving DecidableEq

/-- The limit on the connections of a session, if there is one. -/
def RepairPolicy.pickLimit (p : RepairPolicy) : Option Nat :=
  if 0 < p.maxConnections then some p.maxConnections else none

/-- Whether nets of the driver `name` are left out. -/
def Settings.leavesOut (s : Settings) (name : String) : Bool :=
  s.skippedDrivers.any fun part => Text.occursIn part.toList name.toList

/-- Why settings were refused. -/
inductive SettingsError where
  /-- The file cannot be read. -/
  | unreadable (path reason : String)
  /-- The text is no settings file. -/
  | malformed
  /-- A setting that has to be at least one is zero. -/
  | zero (key : String)
deriving DecidableEq

/-- The message of a refusal. -/
def SettingsError.message : SettingsError → String
  | .unreadable path reason => s!"cannot read {path}: {reason}"
  | .malformed => "malformed holdfix.toml"
  | .zero key => s!"{key} must be at least 1"

namespace Settings

/-- The settings that have to be at least one, in the order of checking. -/
def positive (s : Settings) : List (String × Nat) :=
  [("wirelength.weight", s.weighting.weight),
   ("wirelength.zero_length_floor", s.weighting.zeroLengthFloor),
   ("repair.max_attempts", s.repair.maxAttempts),
   ("report.top_k", s.reportSize)]

/-- Refuses settings of which one that has to be at least one is zero. -/
def check (s : Settings) : Except SettingsError Settings :=
  match s.positive.find? fun setting => setting.2 = 0 with
  | some (key, _) => .error (.zero key)
  | none => .ok s

end Settings

end HoldMargin

import HoldMargin.Text
/-!
# Findings

A finding is what a pass over a design reports to its user: how serious it
is, a code, a message, where it applies, and notes. Findings are collected
in a log, whose tallies count all that were ever added, also those taken
out of it (`FindingLog.drain`).
-/

namespace HoldMargin

/-- How a finding affects the pass that reports it. -/
inductive Severity where
  /-- The pass goes on. -/
  | warning
  /-- The pass stopped. -/
  | error
deriving DecidableEq

/-- What a finding is about; the letter of its code. -/
inductive FindingKind where
  | error
  | warning
  | hold
  | route
deriving DecidableEq

/-- The code of a kind of finding. -/
structure FindingCode where
  kind : FindingKind
  number : Nat
deriving DecidableEq

/-- Where in a design a finding applies. -/
inductive Location where
  | design
  | net (name : String)
  /-- One connection of the net `name`, from a driver pin to a sink pin. -/
  | connection (name driver sink : String)
deriving DecidableEq

/-- A finding. -/
structure Finding where
  severity : Severity
  code : FindingCode
  message : String
  location : Location
  notes : List String := []
  help : List String := []
deriving DecidableEq

/-! ## Codes -/

/-- The letter of a kind of finding. -/
def FindingKind.letter : FindingKind → Char
  | .error => 'E'
  | .warning => 'W'
  | .hold => 'H'
  | .route => 'R'

namespace FindingCode

/-- A sink is not reached by the committed route of its net. -/
def sinkNotReached : FindingCode := ⟨.warning, 101⟩

/-- A connection at risk could not be repaired. -/
def repairGivenUp : FindingCode := ⟨.hold, 201⟩

/-- A failed repair left a sink without a route. -/
def routeLost : FindingCode := ⟨.hold, 202⟩

/-- A net needs an alternate source that it does not have. -/
def missingAlternateSource : FindingCode := ⟨.error, 301⟩

/-- Something the design names is not in the device. -/
def modelMismatch : FindingCode := ⟨.error, 302⟩

/-- The letter of the code and its number, in three digits or more. -/
def text (c : FindingCode) : String :=
  c.kind.letter.toString ++ Text.padZeros 3 (toString c.number)

end FindingCode

/-! ## Rendering -/

/-- The word for a severity. -/
def Severity.name : Severity → String
  | .warning => "warning"
  | .error => "error"

/-- A location in words. -/
def Location.text : Location → String
  | .design => "design"
  | .net name => s!"net {name}"
  | .connection name driver sink => s!"net {name} ({driver} -> {sink})"

/-- The terminal colour of a severity. -/
def Severity.colour : Severity → String
  | .error => "31"
  | .warning => "33"

/-- `s` in bold and in a terminal colour. -/
def inColour (colour s : String) : String := "\x1b[1;" ++ colour ++ "m" ++ s ++ "\x1b[0m"

namespace Finding

/-- The severity and the code of a finding. -/
def header (f : Finding) (colour : Bool) : String :=
  let text := f.severity.name ++ "[" ++ f.code.text ++ "]"
  if colour then inColour f.severity.colour text else text

/-- A finding as lines for a terminal. A finding on the whole design does
not say where. -/
def render (f : Finding) (colour : Bool) : String :=
  String.join <|
    Text.line (f.header colour ++ ": " ++ f.message) ::
    (if f.location = .design then [] else [Text.line ("  --> " ++ f.location.text)]) ++
    (f.notes.map fun note => Text.line ("   = note: " ++ note)) ++
    (f.help.map fun help => Text.line ("   = help: " ++ help))

end Finding

/-! ## Logs -/

/-- The findings of some passes. -/
structure FindingLog where
  /-- The findings not taken out yet, in the order of their addition. -/
  pending : List Finding := []
  /-- The number of errors ever added. -/
  errors : Nat := 0
  /-- The number of warnings ever added. -/
  warnings : Nat := 0

namespace FindingLog

/-- The log with one more finding. -/
def add (log : FindingLog) (f : Finding) : FindingLog :=
  match f.severity with
  | .error => { log with pending := log.pending ++ [f], errors := log.errors + 1 }
  | .warning => { log with pending := log.pending ++ [f], warnings := log.warnings + 1 }

/-- The log with the findings of a list added. -/
def addAll (log : FindingLog) (fs : List Finding) : FindingLog := fs.foldl add log

/-- Whether an error was ever added. -/
def hasErrors (log : FindingLog) : Bool := 0 < log.errors

/-- Takes the findings out; the tallies stay. -/
def drain (log : FindingLog) : List Finding × FindingLog :=
  (log.pending, { log with pending := [] })

@[simp] theorem pending_add (log : FindingLog) (f : Finding) :
    (log.add f).pending = log.pending ++ [f] := by
  unfold add; split <;> rfl

@[simp] theorem pending_addAll (log : FindingLog) (fs : List Finding) :
    (log.addAll fs).pending = log.pending ++ fs := by
  induction fs generalizing log with
  | nil => simp [addAll]
  | cons f fs ih =>
    have h : log.addAll (f :: fs) = (log.add f).addAll fs := rfl
    rw [h, ih, pending_add]
    simp

end FindingLog

end HoldMargin

import HoldMargin.CommandLine.Arguments
import HoldMargin.CommandLine.Files
import HoldMargin.Finding.Json
import HoldMargin.Repair.Review
import HoldMargin.Report.Json
import HoldMargin.Settings.Text
import HoldMargin.Snapshot
/-!
# Running commands

A command reads its settings and its snapshot, does its work, and answers
with an exit code and with what goes to the two outputs of a terminal:
reports to the first, progress, findings and failures to the second. With
JSON asked for, the first output is one document that holds the findings as
well. The repaired snapshot is written only if no pass was stopped, and
before anything is reported.
-/

namespace HoldMargin.CommandLine

/-- What a command leaves behind, its files apart. -/
structure Output where
  exitCode : Nat
  stdout : String := ""
  stderr : String := ""
deriving DecidableEq

/-- The settings file of a working directory. -/
def settingsFile : String := "holdfix.toml"

/-- What is printed when the version is asked for. -/
def versionText : String := Text.line "holdfix 0.1.0"

/-- What is printed when help is asked for. -/
def helpText : String :=
  Text.line "Usage: holdfix [OPTIONS] report <SNAPSHOT>" ++
  Text.line "       holdfix [OPTIONS] fix <SNAPSHOT> <OUTPUT>"

/-- The output of a command that failed after it had already written
`progress`. -/
def failure (progress reason : String) : Output where
  exitCode := 1
  stderr := progress ++ Text.line ("error: " ++ reason)

namespace Options

/-- Whether progress is told. -/
def showsProgress (o : Options) : Bool := !o.quiet && o.format != some .json

/-- Whether findings are coloured, on a terminal or not. -/
def showsColour (o : Options) (terminal : Bool) : Bool :=
  match o.colour with
  | some .always => true
  | some .never => false
  | some .auto | none => terminal

end Options

/-- The output of a command that came to its end: a heading, the findings,
the reports as text or as fields of a document, and the tally. -/
def report (o : Options) (terminal : Bool) (heading : String) (findings : List Finding)
    (text : String) (fields : List (String × Json)) : Output :=
  let log := FindingLog.addAll {} findings
  let exitCode := if log.hasErrors then 1 else 0
  match o.format with
  | some .json =>
    let document := Json.obj (("diagnostics", .list Finding.toJson findings) :: fields)
    { exitCode, stdout := Text.line document.sortFields.pretty }
  | some .text | none =>
    let rendered := String.join (findings.map fun f =>
      Text.line (f.render (o.showsColour terminal)))
    let tally :=
      if o.showsProgress then
        Text.line s!"   Result: {log.errors} error(s), {log.warnings} warning(s)"
      else ""
    { exitCode, stdout := text, stderr := heading ++ rendered ++ tally }

/-- A line of progress, if progress is told. -/
def heading (o : Options) (text : String) : String :=
  if o.showsProgress then Text.line ("   " ++ text) else ""

section Commands

variable {m : Type → Type} [Monad m] (fs : FileAccess m)

/-- The settings: those of the file that is named, or else of the one in the
working directory, or else the usual ones. -/
def openSettings (o : Options) : m (Except SettingsError Settings) := do
  let path ← match o.config with
    | some path => pure (some path)
    | none => do
      if ← fs.isFile settingsFile then pure (some settingsFile) else pure none
  match path with
  | none => return .ok {}
  | some path =>
    match ← fs.read path with
    | .error reason => return .error (.unreadable path reason)
    | .ok text => return Settings.ofToml text

/-- The snapshot at a path, or why there is none. -/
def openSnapshot (path : String) : m (Except String Snapshot) := do
  match ← fs.read path with
  | .error reason => return .error s!"cannot read snapshot {path}: {reason}"
  | .ok text => return (Snapshot.ofText text).mapError SnapshotError.message

/-- Loads what a command works on and goes on with it. -/
def withInputs (o : Options) (path : String) (work : Settings → Snapshot → m Output) :
    m Output := do
  match ← openSettings fs o with
  | .error e => return failure "" e.message
  | .ok settings =>
    match ← openSnapshot fs path with
    | .error reason => return failure "" reason
    | .ok snapshot => work settings snapshot

/-- Reports on a snapshot. -/
def runReport (o : Options) (terminal : Bool) (s : Settings) (snapshot : Snapshot) : Output :=
  let design := snapshot.design
  let title := heading o
    s!"Measuring {design.name} ({design.netlist.nets.size} nets) on {snapshot.device.name}"
  let pass := snapshot.placement.report s design.routing {}
  let found := Pass.findingsOf pass.events
  match pass.outcome with
  | .ok r => report o terminal title found r.text [("report", r.toJson)]
  | .error e => report o terminal title (found ++ [e.toFinding]) "" [("report", .null)]

/-- The three reports of a review as text. -/
def reviewText (r : ReviewReports) : String :=
  r.before.text ++ Text.line "" ++ r.summary.text ++ Text.line "" ++ r.after.text

/-- The three reports of a review as fields of a document. -/
def reviewFields (r : ReviewReports) : List (String × Json) :=
  [("before", r.before.toJson), ("summary", r.summary.toJson), ("after", r.after.toJson)]

/-- Repairs a snapshot and writes the result. -/
def runFix (o : Options) (terminal : Bool) (output : String) (s : Settings)
    (snapshot : Snapshot) : m Output := do
  let design := snapshot.design
  let title := heading o s!"Repairing {design.name} (threshold {s.hold.minWirelength})"
  let limit := o.expansionLimit.getD usualExpansionLimit
  let review := snapshot.placement.review s limit design.routing
  match review.reports with
  | none => return report o terminal title review.findings "" []
  | some reports =>
    let repaired := { snapshot with design := { design with routing := review.routing } }
    match ← fs.write output repaired.text with
    | .error reason => return failure title s!"cannot write snapshot {output}: {reason}"
    | .ok () =>
      return report o terminal title review.findings (reviewText reports) (reviewFields reports)

/-- Runs a command. -/
def runCommand (terminal : Bool) (i : Invocation) : m Output :=
  match i.command with
  | .report path =>
    withInputs fs i.options path fun s snapshot =>
      pure (runReport i.options terminal s snapshot)
  | .fix path output => withInputs fs i.options path (runFix fs i.options terminal output)

/-- Runs a command line. -/
def run (terminal : Bool) (args : List String) : m Output :=
  match read args with
  | .ok i => runCommand fs terminal i
  | .error .usage => pure { exitCode := 2, stderr := helpText }
  | .error .version => pure { exitCode := 0, stdout := versionText }
  | .error .help => pure { exitCode := 0, stdout := helpText }

end Commands

end HoldMargin.CommandLine

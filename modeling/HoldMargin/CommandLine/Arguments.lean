/-!
# Command lines

A command line names a command with its operands. Options may stand
anywhere after the level they belong to: the general ones before or after
the command, the command's own after it. An option's value is the next
argument or is joined to it, with `=` or, after a single letter, directly;
single letters may share a dash; `--` ends the options. Nothing may be
given twice on one level, and what is given after the command counts more
than what is given before it.
-/

namespace HoldMargin.CommandLine

/-- When findings are coloured. -/
inductive ColourChoice where
  /-- On a terminal. -/
  | auto
  | always
  | never
deriving DecidableEq

/-- How a report is written. -/
inductive Format where
  | text
  | json
deriving DecidableEq

/-- What may be set on a command line, and has been set so far. -/
structure Options where
  quiet : Bool := false
  verbose : Bool := false
  colour : Option ColourChoice := none
  /-- The settings file. -/
  config : Option String := none
  format : Option Format := none
  /-- The expansions for a sink after which the router gives up. -/
  expansionLimit : Option Nat := none
deriving DecidableEq

/-- A command. -/
inductive Command where
  /-- Report on a snapshot. -/
  | report (snapshot : String)
  /-- Repair a snapshot and write the result to another file. -/
  | fix (snapshot output : String)
deriving DecidableEq

/-- A command and the options it is run with. -/
structure Invocation where
  command : Command
  options : Options
deriving DecidableEq

/-- What a command line asks for instead of running a command. -/
inductive Stop where
  /-- The command line makes no sense. -/
  | usage
  | version
  | help
deriving DecidableEq

/-- Where on a command line an argument stands. -/
inductive Level where
  /-- Before the command. -/
  | top
  | report
  | fix
deriving DecidableEq

/-- The number of operands of a command. -/
def Level.operandCount : Level → Nat
  | .top => 0
  | .report => 1
  | .fix => 2

/-- An option without a value. -/
inductive Flag where
  | quiet
  | verbose
  | version
  | help
deriving DecidableEq

/-- An option with a value. -/
inductive Setting where
  | colour
  | config
  | format
  | expansionLimit
deriving DecidableEq

/-- The levels a flag may stand on. -/
def Flag.isAllowed : Flag → Level → Bool
  | .version, level => level = .top
  | _, _ => true

/-- The levels a setting may stand on. -/
def Setting.isAllowed : Setting → Level → Bool
  | .format, level => level ≠ .top
  | .expansionLimit, level => level = .fix
  | _, _ => true

/-- The flag of a long name. -/
def Flag.ofName? : String → Option Flag
  | "quiet" => some .quiet
  | "verbose" => some .verbose
  | "version" => some .version
  | "help" => some .help
  | _ => none

/-- The flag of a letter. -/
def Flag.ofLetter? : Char → Option Flag
  | 'q' => some .quiet
  | 'v' => some .verbose
  | 'V' => some .version
  | 'h' => some .help
  | _ => none

/-- The setting of a long name. -/
def Setting.ofName? : String → Option Setting
  | "color" => some .colour
  | "config" => some .config
  | "format" => some .format
  | "expansion-limit" => some .expansionLimit
  | _ => none

/-- The setting of a letter. -/
def Setting.ofLetter? : Char → Option Setting
  | 'f' => some .format
  | _ => none

/-! ## Values -/

/-- The colour choice of a word. -/
def ColourChoice.ofName? : String → Option ColourChoice
  | "auto" => some .auto
  | "always" => some .always
  | "never" => some .never
  | _ => none

/-- The format of a word. -/
def Format.ofName? : String → Option Format
  | "text" => some .text
  | "json" => some .json
  | _ => none

/-- The 64-bit count that digits write; a plus sign may stand before them. -/
def count? (s : String) : Option Nat :=
  let digits := match s.toList with
    | '+' :: digits => digits
    | digits => digits
  if digits.isEmpty || !digits.all Char.isDigit then none
  else
    let n := Nat.ofDigitChars 10 digits 0
    if n < UInt64.size then some n else none

namespace Options

/-- Gives a flag. -/
def giveFlag (o : Options) : Flag → Except Stop Options
  | .quiet => if o.quiet then .error .usage else .ok { o with quiet := true }
  | .verbose => if o.verbose then .error .usage else .ok { o with verbose := true }
  | .version => .error .version
  | .help => .error .help

/-- A value that was read, unless one has been given before. -/
def once {α : Type} (given read : Option α) : Except Stop (Option α) :=
  match given, read with
  | none, some a => .ok (some a)
  | _, _ => .error .usage

/-- Gives a setting a value. -/
def giveSetting (o : Options) (value : String) : Setting → Except Stop Options
  | .colour => do return { o with colour := ← once o.colour (ColourChoice.ofName? value) }
  | .config => do return { o with config := ← once o.config (some value) }
  | .format => do return { o with format := ← once o.format (Format.ofName? value) }
  | .expansionLimit => do
    return { o with expansionLimit := ← once o.expansionLimit (count? value) }

/-- The options given before a command, and those given after it. -/
def within (outer inner : Options) : Options where
  quiet := outer.quiet || inner.quiet
  verbose := outer.verbose || inner.verbose
  colour := inner.colour <|> outer.colour
  config := inner.config <|> outer.config
  format := inner.format
  expansionLimit := inner.expansionLimit

end Options

/-! ## Reading -/

/-- Whether an argument is not taken for a value. -/
def isOption (arg : String) : Bool := arg.startsWith "-" && arg ≠ "-"

/-- Options, and a setting whose value is the next argument. -/
abbrev Given := Options × Option Setting

/-- Reads a long option, without its dashes. -/
def longOption (level : Level) (o : Options) (text : List Char) : Except Stop Given :=
  let name := String.ofList (text.takeWhile (· ≠ '='))
  let joined := match text.dropWhile (· ≠ '=') with
    | _ :: value => some (String.ofList value)
    | [] => none
  match Flag.ofName? name, Setting.ofName? name, joined with
  | some flag, _, none =>
    if flag.isAllowed level then (o.giveFlag flag).map (·, none) else .error .usage
  | none, some setting, joined =>
    if !setting.isAllowed level then .error .usage
    else
      match joined with
      | some value => (o.giveSetting value setting).map (·, none)
      | none => .ok (o, some setting)
  | _, _, _ => .error .usage

/-- Reads the letters after a single dash. -/
def letters (level : Level) (o : Options) : List Char → Except Stop Given
  | [] => .ok (o, none)
  | c :: cs =>
    match Flag.ofLetter? c, Setting.ofLetter? c with
    | some flag, _ =>
      if flag.isAllowed level then
        match o.giveFlag flag with
        | .ok o => letters level o cs
        | .error stop => .error stop
      else .error .usage
    | none, some setting =>
      if !setting.isAllowed level then .error .usage
      else
        match cs with
        | [] => .ok (o, some setting)
        | '=' :: value => (o.giveSetting (String.ofList value) setting).map (·, none)
        | value => (o.giveSetting (String.ofList value) setting).map (·, none)
    | none, none => .error .usage

/-- Reads an argument that is an option other than `--`. -/
def option (level : Level) (o : Options) (arg : String) : Except Stop Given :=
  match arg.toList with
  | '-' :: '-' :: text => longOption level o text
  | _ :: text => letters level o text
  | [] => .error .usage

/-- Reads the arguments of a command: its options and operands. `operands`
holds the operands so far, the last one first. An operand too many is
refused before anything behind it is read. -/
def commandArguments (level : Level) (o : Options) (operands : List String) :
    List String → Except Stop (Options × List String)
  | [] => .ok (o, operands.reverse)
  | "--" :: args => .ok (o, operands.reverse ++ args)
  | arg :: args =>
    if isOption arg then
      match option level o arg with
      | .error stop => .error stop
      | .ok (o, none) => commandArguments level o operands args
      | .ok (o, some setting) =>
        match args with
        | [] => .error .usage
        | value :: args =>
          if isOption value then .error .usage
          else
            match o.giveSetting value setting with
            | .error stop => .error stop
            | .ok o => commandArguments level o operands args
    else if operands.length < level.operandCount then
      commandArguments level o (arg :: operands) args
    else .error .usage

/-- What asking for help on topics comes to: there is help on the program
and on each command, help being one. -/
def helpOn (topics : List String) : Stop :=
  match topics with
  | [] | ["report"] | ["fix"] | ["help"] => .help
  | _ => .usage

/-- Reads a command after its name. -/
def command (outer : Options) (name : String) (args : List String) : Except Stop Invocation :=
  match name with
  | "report" => do
    match ← commandArguments .report {} [] args with
    | (o, [snapshot]) => return { command := .report snapshot, options := outer.within o }
    | _ => .error .usage
  | "fix" => do
    match ← commandArguments .fix {} [] args with
    | (o, [snapshot, output]) =>
      return { command := .fix snapshot output, options := outer.within o }
    | _ => .error .usage
  | "help" => .error (helpOn args)
  | _ => .error .usage

/-- Reads a command line after some options. -/
def readFrom (o : Options) : List String → Except Stop Invocation
  | [] => .error .usage
  | "--" :: _ => .error .usage
  | arg :: args =>
    if isOption arg then
      match option .top o arg with
      | .error stop => .error stop
      | .ok (o, none) => readFrom o args
      | .ok (o, some setting) =>
        match args with
        | [] => .error .usage
        | value :: args =>
          if isOption value then .error .usage
          else
            match o.giveSetting value setting with
            | .error stop => .error stop
            | .ok o => readFrom o args
    else command o arg args

/-- Reads a command line. -/
def read (args : List String) : Except Stop Invocation := readFrom {} args

end HoldMargin.CommandLine

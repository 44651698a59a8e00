import Replica.Script.Report

/-!
# The command line

Two commands are known: one replays a script, the other tells the version. Options come before
or after positional arguments, short ones may be joined, and an option that takes a value takes
it from the same argument or from the next one.
-/

namespace Replica.CommandLine

def version : String := "0.3.0"

inductive Topic where
  | program
  | replay
  | version
  | help
  deriving DecidableEq, Repr

structure ReplayOptions where
  script : String
  format : String
  stats : Bool
  deriving DecidableEq, Repr

inductive Command where
  | replay (options : ReplayOptions)
  | version
  | programVersion
  | help (topic : Topic)
  deriving DecidableEq, Repr

/-! ## Reading arguments -/

inductive Argument where
  /-- The mark after which every argument is positional. -/
  | endOfOptions
  /-- A long option, with the value after its equals sign. -/
  | long (name : List Char) (value? : Option (List Char))
  | short (letters : List Char)
  | positional (text : String)
  deriving DecidableEq, Repr

/-- The part before the first equals sign, and the part after it if there is one. -/
def splitEquals (cs : List Char) : List Char × Option (List Char) :=
  match cs.span (· != '=') with
  | (name, '=' :: value) => (name, some value)
  | (name, _) => (name, none)

/-- Takes an argument apart. A lone dash is positional. -/
def classify (text : String) : Argument :=
  match text.toList with
  | ['-', '-'] => .endOfOptions
  | '-' :: '-' :: rest => .long (splitEquals rest).1 (splitEquals rest).2
  | '-' :: letter :: rest => .short (letter :: rest)
  | _ => .positional text

inductive Switch where
  | verbose
  | stats
  | format
  | help
  | version
  deriving DecidableEq, Repr

def longOption? (name : List Char) : Option Switch :=
  if name = "verbose".toList then some .verbose
  else if name = "stats".toList then some .stats
  else if name = "format".toList then some .format
  else if name = "help".toList then some .help
  else if name = "version".toList then some .version
  else none

def shortOption? (letter : Char) : Option Switch :=
  if letter = 'v' then some .verbose
  else if letter = 's' then some .stats
  else if letter = 'f' then some .format
  else if letter = 'h' then some .help
  else if letter = 'V' then some .version
  else none

/-- What has been read of one command. -/
structure Reading where
  topic : Topic
  verbose : Bool := false
  stats : Bool := false
  format? : Option String := none
  script? : Option String := none
  /-- The format option waits for its value. -/
  awaitsFormat : Bool := false
  /-- Every argument from here on is positional. -/
  onlyPositional : Bool := false

/-- Reading goes on, or an option has settled what to do. -/
inductive Progress where
  | more (reading : Reading)
  | settled (command : Command)

namespace Reading

def knows (reading : Reading) : Switch → Bool
  | .verbose | .help => true
  | .stats | .format => reading.topic == .replay
  | .version => reading.topic == .program

/-- Takes an option without a value. Each may be given once. -/
def flag? (reading : Reading) (option : Switch) : Option Progress :=
  if !reading.knows option then none
  else
    match option with
    | .verbose => if reading.verbose then none else some (.more { reading with verbose := true })
    | .stats => if reading.stats then none else some (.more { reading with stats := true })
    | .format =>
      if reading.format?.isSome then none else some (.more { reading with awaitsFormat := true })
    | .help => some (.settled (.help reading.topic))
    | .version => some (.settled .programVersion)

def setFormat? (reading : Reading) (value : String) : Option Progress :=
  if reading.format?.isSome || !reading.knows .format then none
  else some (.more { reading with format? := some value, awaitsFormat := false })

/-- Takes joined short options. What follows a format option is its value. -/
def shorts? (reading : Reading) : List Char → Option Progress
  | [] => some (.more reading)
  | letter :: rest => do
    let option ← shortOption? letter
    match option, rest with
    | .format, '=' :: value => reading.setFormat? (String.ofList value)
    | .format, value@(_ :: _) => reading.setFormat? (String.ofList value)
    | _, _ =>
      match ← reading.flag? option with
      | .settled command => return .settled command
      | .more reading => reading.shorts? rest

/-- Takes a positional argument, which only a replay has: its script. -/
def positional? (reading : Reading) (text : String) : Option Progress :=
  if reading.topic = .replay ∧ reading.script? = none ∧ text ≠ "" then
    some (.more { reading with script? := some text })
  else none

def take? (reading : Reading) (text : String) : Option Progress :=
  if reading.onlyPositional then
    if reading.awaitsFormat then none else reading.positional? text
  else
    match classify text, reading.awaitsFormat with
    | .endOfOptions, _ => some (.more { reading with onlyPositional := true })
    | .positional text, true => reading.setFormat? text
    | _, true => none
    | .positional text, false => reading.positional? text
    | .long name none, false => (longOption? name).bind reading.flag?
    | .long name (some value), false =>
      if longOption? name = some .format then reading.setFormat? (String.ofList value) else none
    | .short letters, false => reading.shorts? letters

def finish? (reading : Reading) : Option Command :=
  if reading.awaitsFormat then none
  else
    match reading.topic, reading.script? with
    | .replay, some script =>
      some (.replay ⟨script, reading.format?.getD "text", reading.stats⟩)
    | .version, _ => some .version
    | _, _ => none

end Reading

def readCommand? (reading : Reading) : List String → Option Command
  | [] => reading.finish?
  | text :: rest =>
    match reading.take? text with
    | none => none
    | some (.settled command) => some command
    | some (.more reading) => readCommand? reading rest

def helpTopic? : List String → Option Command
  | [] => some (.help .program)
  | ["replay"] => some (.help .replay)
  | ["version"] => some (.help .version)
  | ["help"] => some (.help .help)
  | _ => none

/-- Reads the options before the name of the command, and then the command. -/
def readProgram? (reading : Reading) : List String → Option Command
  | [] => none
  | text :: rest =>
    if text = "replay" then readCommand? { topic := .replay } rest
    else if text = "version" then readCommand? { topic := .version } rest
    else if text = "help" then helpTopic? rest
    else
      match reading.take? text with
      | some (.settled command) => some command
      | some (.more reading) =>
        if reading.onlyPositional then none else readProgram? reading rest
      | none => none

/-- What the arguments ask for; bad usage asks for nothing. -/
def parse? (arguments : List String) : Option Command :=
  readProgram? { topic := .program } arguments

/-! ## Answers -/

def helpText : Topic → List String
  | .program =>
    [ "CLI tools for Canopy",
      "",
      "Usage: canopy [OPTIONS] <COMMAND>",
      "",
      "Commands:",
      "  replay   Replay a script of listens, writes and server operations",
      "  version  Show version information",
      "  help     Print this message or the help of the given subcommand(s)",
      "",
      "Options:",
      "  -v, --verbose  Enable verbose output",
      "  -h, --help     Print help",
      "  -V, --version  Print version" ]
  | .replay =>
    [ "Replay a script of listens, writes and server operations",
      "",
      "Usage: canopy replay [OPTIONS] <SCRIPT>",
      "",
      "Arguments:",
      "  <SCRIPT>  Script file, one JSON step per line",
      "",
      "Options:",
      "  -f, --format <FORMAT>  Output format (text, json) [default: text]",
      "  -v, --verbose          Enable verbose output",
      "  -s, --stats            Print engine counters after the replay",
      "  -h, --help             Print help" ]
  | .version =>
    [ "Show version information",
      "",
      "Usage: canopy version [OPTIONS]",
      "",
      "Options:",
      "  -v, --verbose  Enable verbose output",
      "  -h, --help     Print help" ]
  | .help =>
    [ "Print this message or the help of the given subcommand(s)",
      "",
      "Usage: canopy help [COMMAND]...",
      "",
      "Arguments:",
      "  [COMMAND]...  Print help for the subcommand(s)" ]

structure Exit where
  code : Nat
  output : String
  deriving DecidableEq, Repr

/-- The end of a replay whose script holds the given text, if it could be read. -/
def runReplay (options : ReplayOptions) (contents? : Option String) : Exit :=
  match contents? with
  | none => ⟨1, ""⟩
  | some contents =>
    match Replay.run contents with
    | .error _ => ⟨1, ""⟩
    | .ok replay => ⟨0, replay.report (options.format == "json") options.stats⟩

def script? (arguments : List String) : Option String :=
  match parse? arguments with
  | some (.replay options) => some options.script
  | _ => none

/-- Runs the program. The contents are those of the script asked for. -/
def run (arguments : List String) (contents? : Option String) : Exit :=
  match parse? arguments with
  | none => ⟨2, ""⟩
  | some (.replay options) => runReplay options contents?
  | some .version => ⟨0, Text.ofLines ["Canopy CLI v" ++ version, "Canopy Core v" ++ version]⟩
  | some .programVersion => ⟨0, Text.ofLines ["canopy " ++ version]⟩
  | some (.help topic) => ⟨0, Text.ofLines (helpText topic)⟩

end Replica.CommandLine

import PointerTriage.CommandLine.Arguments
import PointerTriage.Failure
import PointerTriage.Outcome.Json

namespace PointerTriage.CommandLine

def program : String := "dpp-rank"

def versionText : String := program ++ " 0.1.0\n"

def helpText : String :=
  "Rank input-dependent data pointers for run-time protection\n\n" ++
  "Usage: dpp-rank [OPTIONS] <SNAPSHOT>\n\n" ++
  "Arguments:\n" ++
  "  <SNAPSHOT>  Program snapshot (JSON)\n\n" ++
  "Options:\n" ++
  "      --config <FILE>      YAML configuration (ConfigExportV1)\n" ++
  "      --preset <PRESET>    Preset when no --config is given: fast, balanced, thorough [default: balanced]\n" ++
  "      --functions <FILE>   Functions file (IF <name> [arg_start] / VULN <name>)\n" ++
  "      --rule <NAME>        Rule to enable; repeatable, `all` enables every rule\n" ++
  "      --topk <PERCENT>     Percentage of ranked objects to select, in (0, 100]\n" ++
  "      --protection <MODE>  none, full or dpp\n" ++
  "      --log-rule           Log one report block per rule\n" ++
  "  -o, --output <FILE>      Write the report (or JSON with --json) to this file\n" ++
  "      --json               Emit the full outcome as JSON\n" ++
  "  -v, --verbose            \n" ++
  "  -h, --help               Print help\n" ++
  "  -V, --version            Print version\n"

def usageText : String :=
  "error: invalid arguments\n\nUsage: dpp-rank [OPTIONS] <SNAPSHOT>\n\n" ++
  "For more information, try '--help'.\n"

/-- What files hold, by their paths. -/
abbrev Reader := String → Contents

namespace Options

/-- The settings file, or else the preset, with what the other arguments change. -/
def draft (o : Options) (read : Reader) : Except Failure Settings.Draft := do
  let d ← match o.config with
    | some path => do
      let text ← (read path).mapError .file
      (Settings.Draft.parse text).mapError .settings
    | none => do
      let preset ← (Settings.Preset.ofName (o.preset.getD "balanced")).mapError .settings
      pure (.ofPreset preset)
  let d ← match o.functions with
    | some path => do
      let functions ← (Settings.Functions.load (read path)).mapError .settings
      pure (d.withFunctions functions)
    | none => pure d
  let d ← if o.rules.isEmpty then pure d else do
    let rules ← (Rule.select o.rules).mapError fun name => Failure.settings (.unknownRule name)
    pure (d.onRules ({ · with rules }))
  let d := if o.flags.contains .logRule then d.onRules ({ · with logEach := true }) else d
  let d := match o.topk with
    | some percentile => d.onRanking ({ · with percentile })
    | none => d
  match o.protection with
  | some mode => do
    let protection ← (Settings.Protection.ofName mode).mapError .settings
    return d.onRanking ({ · with protection })
  | none => return d

/-- The text of the outcome. -/
def report (o : Options) (read : Reader) : Except Failure String := do
  let settings ← (← o.draft read).build.mapError .settings
  let built ← Snapshot.loadProgram (read (o.snapshot.getD ""))
  let c := built.context settings
  let outcome := Outcome.run c (Rules.checks settings)
  return if o.flags.contains .json then outcome.toJson.pretty else outcome.text c

end Options

/-- What is left to do. -/
inductive Reply where
  | print (text : String)
  | save (path text : String)
  | fail (e : Failure)
  /-- The arguments are wrong. -/
  | misuse

namespace Reply

def ofStop : Stop → Reply
  | .misuse => .misuse
  | .help => .print helpText
  | .version => .print versionText

/-- Wrong arguments and settings that are refused end with code 2, all other failures with code 1. -/
def code : Reply → Nat
  | .print _ | .save _ _ => 0
  | .fail (.settings _) | .misuse => 2
  | .fail _ => 1

/-- What is said about a failure. -/
def complaint : Reply → String
  | .print _ | .save _ _ => ""
  | .fail e => program ++ ": " ++ e.message ++ "\n"
  | .misuse => usageText

end Reply

/-- A report goes to a file as it is, and to the screen with a line break after it. -/
def Options.reply (o : Options) (read : Reader) : Reply :=
  match o.report read with
  | .error e => .fail e
  | .ok text =>
    match o.output with
    | some path => .save path text
    | none => .print (text ++ "\n")

def reply (args : List String) (read : Reader) : Reply :=
  match parse args with
  | .error stop => .ofStop stop
  | .ok o => o.reply read

end PointerTriage.CommandLine

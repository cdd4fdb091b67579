import SignalSlot.CommandLine.LogFilter
import SignalSlot.CommandLine.Options
import SignalSlot.UnitSearch

set_option autoImplicit false

/-!
# Running the command

The command loads the configuration, finds the unit files, resolves each of them
and reports the uses.  A unit that fails is skipped with a warning and makes the
exit code 2; a configuration that fails is an error and nothing is resolved.
-/

namespace SignalSlot.CommandLine

/-- An event of the log. -/
structure LogEvent where
  severity : Severity
  message : String
  deriving DecidableEq, Repr, Inhabited

/-! ## The report -/

/-- The uses of a unit. -/
structure UnitReport where
  unit : String
  uses : List UseRecord
  deriving Repr, Inhabited

namespace UnitReport

/-- A report as a document. -/
def encode (r : UnitReport) : Json :=
  .record [("unit", .text r.unit), ("uses", .array (r.uses.map UseRecord.encode))]

/-- A use as a line of text. -/
def useLine (unit : String) (use : UseRecord) : String :=
  unit ++ ":" ++ toString use.range.start.toNat ++ "-" ++ toString use.range.stop.toNat ++ ": " ++
    use.declaration ++ use.context.elim "" fun c => " (in " ++ c ++ ")"

/-- The lines of a report, each of them ended. -/
def render (r : UnitReport) : Format → String
  | .json => r.encode.render ++ "\n"
  | .text => String.join (r.uses.map fun use => useLine r.unit use ++ "\n")

end UnitReport

/-! ## The run -/

/-- What a run leaves behind. -/
structure Outcome where
  exitCode : UInt8
  output : String := ""
  log : List LogEvent := []
  deriving DecidableEq, Repr, Inhabited

/-- What the run says about its version. -/
def versionText : String := "slotref 0.1.0\n"

/-- What the run says about its arguments. -/
def helpText : String :=
  "Usage: slotref [OPTIONS] <PATHS>...\n\n" ++
  "Arguments:\n" ++
  "  <PATHS>...  Unit files, or directories searched for `*.json` unit files\n\n" ++
  "Options:\n" ++
  "      --config <CONFIG>  Configuration file (defaults to the user config dir)\n" ++
  "      --format <FORMAT>  [default: json] [possible values: json, text]\n" ++
  "  -v, --verbose          Log at debug level\n" ++
  "  -h, --help             Print help\n" ++
  "  -V, --version          Print version\n"

/-- What a unit adds to a run. -/
def unitOutcome (format : Format) (unit : String) :
    Except LoadError (List UseRecord) → Outcome
  | .ok uses => { exitCode := 0, output := UnitReport.render ⟨unit, uses⟩ format }
  | .error e =>
    { exitCode := 2, log := [⟨.warning, "skipping unit: " ++ e.message⟩] }

/-- Two parts of a run together; one that failed makes the whole fail. -/
def Outcome.andThen (a b : Outcome) : Outcome where
  exitCode := if a.exitCode = 0 then b.exitCode else a.exitCode
  output := a.output ++ b.output
  log := a.log ++ b.log

/-- The run over unit files, once the configuration is known. -/
def report (s : Surroundings) (format : Format) (config : Config) (units : List String) :
    Outcome :=
  let parts := (units.zip (s.resolveFiles config units)).map fun (unit, result) =>
    unitOutcome format unit result
  parts.foldr Outcome.andThen { exitCode := 0 }

/-- A run with options, with all events of its log. -/
def runWith (s : Surroundings) (options : Options) : Outcome :=
  match s.loadConfig options.config with
  | .error e =>
    { exitCode := 1, log := [⟨.error, e.message⟩] }
  | .ok config =>
    let units := s.unitFiles options.paths
    let found : Outcome :=
      { exitCode := 0, log := if units.isEmpty then [⟨.warning, "no unit files found"⟩] else [] }
    found.andThen (report s options.format config units)

/-- A run with arguments; the log holds the events that are asked for. -/
def run (s : Surroundings) (arguments : List String) : Outcome :=
  match Options.parse arguments with
  | .error .version => { exitCode := 0, output := versionText }
  | .error .help => { exitCode := 0, output := helpText }
  | .error .usage => { exitCode := 2 }
  | .ok options =>
    let outcome := runWith s options
    let filter := LogFilter.ofSetting (if options.verbose then .debug else .warn) s.logFilter
    { outcome with log := outcome.log.filter fun e => filter.keeps e.severity }

end SignalSlot.CommandLine

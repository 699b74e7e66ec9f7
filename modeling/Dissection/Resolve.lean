import Dissection.CommandLine.Scan
import Dissection.Config.Loading
import Dissection.Config.Sections
import Dissection.Json
import Dissection.Registry
import Dissection.Session

/-!
# Resolving

From a configuration and a command line to the settings that are in force: the options of the
configuration are scanned before those of the command line, the names are switched in the registry,
and the outcome is printed.
-/

/-!
## The settings document

The options, the settings and the registry as one JSON object.
-/

namespace Dissection

def Options.entries (o : Options) : List (String × Json) :=
  [("time_format", .string o.timeFormat.effective.name),
    ("time_precision", .string o.timePrecision.effective.name),
    ("disable_protocols", .strings o.disabledProtocols),
    ("enable_protocols", .strings o.enabledProtocols),
    ("enable_heuristics", .strings o.enabledHeuristics),
    ("disable_heuristics", .strings o.disabledHeuristics)]

def NameResolution.document (r : NameResolution) : Json :=
  .flags (NameKind.all.map fun k => (k.name, r.get k))

def DecodeAs.document (d : DecodeAs) : Json :=
  .object [("table", .string d.table), ("selector", .string d.selector),
    ("protocol", .string d.protocol)]

def Settings.entries (s : Settings) : List (String × Json) :=
  [("seconds_type", .string s.seconds.name),
    ("name_resolution", s.names.document),
    ("decode_as", .array (s.rules.map DecodeAs.document)),
    ("keytabs", .strings (s.keytabs.getD []))]

/-- The protocols and the heuristic dissectors of a registry with whether each is on. -/
def Registry.document (r : Registry) : Json :=
  .object [("protocols", .flags r.sortedProtocols), ("heuristics", .flags r.sortedHeuristics)]

def document (s : Session) (r : Registry) : Json :=
  .object (s.options.entries ++ s.settings.entries ++ [("registry", r.document)])

/-- What a program leaves behind: its exit code and what it has written. -/
structure Outcome where
  exitCode : Nat := 0
  output : String := ""
  errorOutput : String := ""
  deriving DecidableEq, Repr

/-- The outcome of a failure that is reported on some lines. -/
def Outcome.failure (lines : List Line) : Outcome where
  exitCode := 1
  errorOutput := String.join (lines.map (Line.written programName))

/-- The outcome of a scan that leaves no session to go on with. -/
def CommandLine.Verdict.outcome? : CommandLine.Verdict → Option Outcome
  | .accepted => none
  | .refused cause => some (.failure cause.diagnostic.lines)
  | .help => some { output := CommandLine.helpPage programName }
  | .misuse m =>
    some { exitCode := 2, errorOutput := CommandLine.misusePage programName m }

/-- Prints the settings once the names of the options are switched in the registry. -/
def conclude (s : Session) (r : Registry) : Outcome :=
  let toggled := r.apply s.options
  if toggled.success then
    { output := Text.withoutControl ((document s toggled.state).print ++ "\n") }
  else .failure toggled.lines

/-- Scans all options and switches the names that they give in a registry. -/
def runOptions (keytabs : Bool) (tokens : List String) (r : Registry) : Outcome :=
  let scan := CommandLine.scan (.standard keytabs) tokens {}
  match scan.verdict.outcome? with
  | some outcome => outcome
  | none => conclude scan.session r

/-- Resolves a configuration and a command line. -/
def resolve (keytabs : Bool) (config : Table) (commandLine : List String) :
    Except Failure Outcome :=
  match Config.arguments (Config.optionSection config) with
  | .error fault => fault.diagnose.map fun d => .failure d.lines
  | .ok tokens =>
    .ok (runOptions keytabs (tokens ++ commandLine)
      (Config.registry (Config.registrySection config)))

end Dissection

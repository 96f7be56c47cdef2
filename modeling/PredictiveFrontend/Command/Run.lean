import PredictiveFrontend.Command.Arguments
import PredictiveFrontend.Report.Files

/-!
# Running a command

A command reads files, writes a text and ends with a code: 0 if all went well, 1 if the settings
are wrong or there is no report, 2 if the command line cannot be understood.
-/

namespace PredictiveFrontend

/-- What a command leaves behind. -/
structure CommandOutcome where
  /-- How the command ended. -/
  code : Nat
  /-- What it wrote. -/
  output : String
  /-- What it wrote about errors. -/
  errors : String
  deriving DecidableEq, Repr

namespace SettingsError

/-- The text of an error in the settings. -/
def message : SettingsError → String
  | .badPath => "a key is not a path"
  | .missingFile => "the file cannot be read"
  | .malformedFile => "the file is malformed"
  | .wrongType => "a value has the wrong type"
  | .invalid => "a value is missing or not allowed"

end SettingsError

namespace CommandOutcome

/-- How a command line is to be written. -/
def usage : String :=
  "Usage: ktfront [--grammar FILE] [--config FILE] [--verbose] COMMAND\n" ++
    "Commands:\n" ++
    "  execute PATH [--format FORMAT]\n" ++
    "  tokens PATH [--all]\n" ++
    "  parse PATH\n" ++
    "  list-formats\n"

/-- The command line cannot be understood. -/
def misused : CommandOutcome := ⟨2, "", usage⟩

/-- The settings are wrong. -/
def misconfigured (e : SettingsError) : CommandOutcome :=
  ⟨1, "", s!"Configuration error: {e.message}\n"⟩

/-- Where the names of the reports are found. -/
def listHint : String := "Run 'ktfront list-formats' to see the available formats\n"

/-- There is no report. -/
def failed (e : ReportError) : CommandOutcome :=
  ⟨1, "", s!"Error: {e.message}\n" ++
    match e with
    | .name _ => listHint
    | _ => ""⟩

/-- The names of all reports. -/
def reportList : CommandOutcome :=
  ⟨0, "Available formats:\n\n" ++ String.join (Report.all.map fun r => "  " ++ r.name ++ "\n"), ""⟩

/-- What became of a report. -/
def ofReport : Except ReportError String → CommandOutcome
  | .ok text => ⟨0, text, ""⟩
  | .error e => failed e

end CommandOutcome

variable {m : Type → Type} [Monad m]

namespace CommandLine

/-- The overrides of a command line: its grammar file counts more than one in the settings. -/
def overrides (c : CommandLine) : List (String × SettingValue) :=
  match c.grammarPath with
  | some path => [("grammar.path", .text path)]
  | none => []

/-- The settings of a command line. -/
def settings (read : FileReader m) (c : CommandLine) :
    m (Except SettingsError FrontendSettings) := do
  let files ←
    match c.settingsPath with
    | some path => pure [← read.settingsText path]
    | none => pure []
  return FrontendSettings.load files c.overrides

/-- Write a report on a file, by a name that may come from the settings. -/
def report (read : FileReader m) (c : CommandLine) (name : Option String) (path : String) :
    m CommandOutcome := do
  match ← c.settings read with
  | .error e => return .misconfigured e
  | .ok settings =>
    return .ofReport (← Report.onFile read settings (name.getD settings.reportName) path)

/-- Run a command line. -/
def run (read : FileReader m) (c : CommandLine) : m CommandOutcome :=
  match c.command with
  | .listReports => pure .reportList
  | .execute path name => c.report read name path
  | .tokens path all =>
    c.report read (some (if all then Report.allTokensSimple else .tokensSimple).name) path
  | .parse path => c.report read (some Report.derivationSimple.name) path

end CommandLine

/-- Run the command line of some arguments. -/
def runArguments (read : FileReader m) (args : List String) : m CommandOutcome :=
  match CommandLine.ofArguments args with
  | some c => c.run read
  | none => pure .misused

end PredictiveFrontend

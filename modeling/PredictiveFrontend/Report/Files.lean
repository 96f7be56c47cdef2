import PredictiveFrontend.Report.Frontend
import PredictiveFrontend.Settings.Frontend
import PredictiveFrontend.Text.Utf8

/-!
# Reports on files

Files are read by whoever asks for the report. The name of the report is looked at first, then the
grammar is read and compiled, and the source is read last; the first failure decides.
-/

namespace PredictiveFrontend

variable {m : Type → Type} [Monad m]

/-- How the bytes of a file are come by. -/
abbrev FileReader (m : Type → Type) : Type :=
  String → m (Except ReadFailure (List UInt8))

namespace FileReader

/-- The text of a file, which must be valid throughout. -/
def text (read : FileReader m) (path : String) : m (Except ReadFailure String) := do
  match ← read path with
  | .error cause => return .error cause
  | .ok bytes =>
    match Text.decode? bytes with
    | some s => return .ok s
    | none => return .error .notText

/-- The text of a file of settings. The ending of its name may be left out, and bytes that are no
characters do not matter. -/
def settingsText (read : FileReader m) (path : String) : m (Option String) := do
  match ← read path with
  | .ok bytes => return some (Text.decodeLenient bytes)
  | .error _ =>
    match ← read (path ++ ".toml") with
    | .ok bytes => return some (Text.decodeLenient bytes)
    | .error _ => return none

end FileReader

namespace Frontend

/-- The front end of a grammar file, or of the bundled grammar if no file is named. -/
def ofFile (read : FileReader m) (grammarPath : Option String) (compile : CompileOptions)
    (parse : ParseOptions) : m (Except GrammarError Frontend) := do
  match grammarPath with
  | none => return ofText bundledGrammarText compile parse
  | some path =>
    match ← read.text path with
    | .error cause => return .error (.unreadable path cause)
    | .ok text => return ofText text compile parse

end Frontend

namespace Report

/-- The report of a name, on a source that is come by only when it is needed. -/
def onSource (read : FileReader m) (settings : FrontendSettings) (name : String)
    (source : m (Except ReportError String)) : m (Except ReportError String) := do
  match ofName name with
  | .error e => return .error (.name e)
  | .ok report =>
    match ← Frontend.ofFile read settings.grammarPath settings.compile settings.parse with
    | .error e => return .error (.grammar e)
    | .ok frontend =>
      match ← source with
      | .error e => return .error e
      | .ok text => return frontend.report text report

/-- The report of a name on a file. -/
def onFile (read : FileReader m) (settings : FrontendSettings) (name path : String) :
    m (Except ReportError String) :=
  onSource read settings name do
    match ← read.text path with
    | .error cause => return .error (.unreadable path cause)
    | .ok text => return .ok text

end Report

end PredictiveFrontend

/-!
# Kinds of reports

A report shows one stage of the work on a source in one format, and is named by both, the stage in
front of the first hyphen. Not every stage has every format.
-/

namespace PredictiveFrontend

/-- What is shown. -/
inductive Stage where
  | token
  | derivation
  | tree
  | symbols
  | partition
  | grammar
  deriving DecidableEq, Repr, Inhabited

namespace Stage

/-- All stages. -/
def all : List Stage := [.token, .derivation, .tree, .symbols, .partition, .grammar]

/-- The word for a stage. -/
def word : Stage → String
  | .token => "token"
  | .derivation => "derivation"
  | .tree => "tree"
  | .symbols => "symbols"
  | .partition => "partition"
  | .grammar => "grammar"

/-- The stage of a word. -/
def ofWord? (word : String) : Option Stage :=
  all.find? fun s => s.word == word

end Stage

/-- How it is shown. -/
inductive Format where
  | simple
  | json
  | yaml
  /-- Plain, with the tokens that the grammar does not see. -/
  | rawSimple
  /-- JSON, with the tokens that the grammar does not see. -/
  | rawJson
  | drawing
  | sets
  | table
  deriving DecidableEq, Repr, Inhabited

namespace Format

/-- All formats. -/
def all : List Format := [.simple, .json, .yaml, .rawSimple, .rawJson, .drawing, .sets, .table]

/-- The word for a format. -/
def word : Format → String
  | .simple => "simple"
  | .json => "json"
  | .yaml => "yaml"
  | .rawSimple => "raw-simple"
  | .rawJson => "raw-json"
  | .drawing => "treeviz"
  | .sets => "sets"
  | .table => "table"

/-- The format of a word. -/
def ofWord? (word : String) : Option Format :=
  all.find? fun f => f.word == word

end Format

/-- Why a text names no report. -/
inductive ReportNameError where
  /-- A text without a hyphen. -/
  | noHyphen (text : String)
  /-- A word in front of the hyphen that is no stage. -/
  | unknownStage (word : String)
  /-- A word behind the hyphen that is no format. -/
  | unknownFormat (word : String)
  /-- A stage that is not shown in a format. -/
  | unsupported (stage : Stage) (format : Format)
  deriving DecidableEq, Repr

namespace ReportNameError

/-- The text of an error. -/
def message : ReportNameError → String
  | .noHyphen text => s!"invalid format: {text}"
  | .unknownStage word => s!"invalid stage: {word}"
  | .unknownFormat word => s!"invalid format type: {word}"
  | .unsupported stage format =>
    "invalid format type: format '" ++ format.word ++ "' is not supported for the " ++
      stage.word ++ " stage"

end ReportNameError

/-- A report: a stage in one of its formats. -/
inductive Report where
  | tokensSimple | tokensJson | tokensYaml | allTokensSimple | allTokensJson
  | derivationSimple | derivationJson | derivationYaml
  | treeDrawing | treeJson
  | symbolsSimple | symbolsJson
  | partitionSimple | partitionJson
  | grammarSets | grammarTable
  deriving DecidableEq, Repr, Inhabited

namespace Report

/-- All reports, in the order in which they are listed. -/
def all : List Report :=
  [.tokensSimple, .tokensJson, .tokensYaml, .allTokensSimple, .allTokensJson, .derivationSimple,
   .derivationJson, .derivationYaml, .treeDrawing, .treeJson, .symbolsSimple, .symbolsJson,
   .partitionSimple, .partitionJson, .grammarSets, .grammarTable]

/-- What a report shows. -/
def stage : Report → Stage
  | .tokensSimple | .tokensJson | .tokensYaml | .allTokensSimple | .allTokensJson => .token
  | .derivationSimple | .derivationJson | .derivationYaml => .derivation
  | .treeDrawing | .treeJson => .tree
  | .symbolsSimple | .symbolsJson => .symbols
  | .partitionSimple | .partitionJson => .partition
  | .grammarSets | .grammarTable => .grammar

/-- How a report shows it. -/
def format : Report → Format
  | .tokensSimple | .derivationSimple | .symbolsSimple | .partitionSimple => .simple
  | .tokensJson | .derivationJson | .treeJson | .symbolsJson | .partitionJson => .json
  | .tokensYaml | .derivationYaml => .yaml
  | .allTokensSimple => .rawSimple
  | .allTokensJson => .rawJson
  | .treeDrawing => .drawing
  | .grammarSets => .sets
  | .grammarTable => .table

/-- The name of a report. -/
def name (r : Report) : String :=
  r.stage.word ++ "-" ++ r.format.word

/-- The report of a stage and a format. -/
def find? (stage : Stage) (format : Format) : Option Report :=
  all.find? fun r => r.stage == stage && r.format == format

/-- The report that a text names. -/
def ofName (text : String) : Except ReportNameError Report :=
  let cs := text.toList
  match cs.dropWhile (· ≠ '-') with
  | [] => .error (.noHyphen text)
  | _ :: behind =>
    let stageWord := String.ofList (cs.takeWhile (· ≠ '-'))
    let formatWord := String.ofList behind
    match Stage.ofWord? stageWord, Format.ofWord? formatWord with
    | none, _ => .error (.unknownStage stageWord)
    | some _, none => .error (.unknownFormat formatWord)
    | some stage, some format =>
      match find? stage format with
      | some r => .ok r
      | none => .error (.unsupported stage format)

/-- Every report is found by its name. -/
theorem ofName_name (r : Report) : ofName r.name = .ok r := by
  cases r <;> rfl

end Report

end PredictiveFrontend

import PredictiveFrontend.Derivation.Machine
import PredictiveFrontend.Settings.Conversion
import PredictiveFrontend.Settings.Path
import PredictiveFrontend.Toml.Document

/-!
# Settings of the front end

The settings say which grammar is compiled and how, how tokens are parsed, and which report is
written if none is asked for. They come in layers: the defaults, then files in their order, then
single overrides.
-/

namespace PredictiveFrontend

/-- All settings. -/
structure FrontendSettings where
  /-- The file of the grammar; the bundled grammar if there is none. -/
  grammarPath : Option String
  compile : CompileOptions
  parse : ParseOptions
  /-- The name of the report. -/
  reportName : String
  deriving DecidableEq, Repr

namespace FrontendSettings

open SettingValue

/-- The words for the policies on conflicts. -/
def conflictPolicies : List (String × ConflictPolicy) :=
  [("reject", .reject), ("last-write-wins", .lastWriteWins)]

/-- The words for the ways to compute FOLLOW sets. -/
def followStrategies : List (String × FollowStrategy) :=
  [("fixed-point", .fixedPoint), ("guarded-recursion", .guardedRecursion)]

/-- The built-in settings. -/
def defaults : SettingValue :=
  table
    [("grammar", table
      [("conflict_policy", .text "reject"), ("follow_strategy", .text "fixed-point")]),
     ("parser", table
      [("strict_end_of_input", .boolean false),
       ("generic_terminals", table
        [("identifier", .text "id"), ("int_constant", .text "intConst"),
         ("double_constant", .text "doubleConst"), ("char_constant", .text "charConst")])]),
     ("output", table [("format", .text "derivation-simple")])]

/-- The settings of the grammar. -/
def grammarOf (v : SettingValue) : Except SettingsError (Option String × CompileOptions) := do
  let fields ← v.toFields ["path", "conflict_policy", "follow_strategy"]
  let path ← defaulted fields "path" none fun v => v.toText.map some
  let conflictPolicy ← required fields "conflict_policy" (toChoice conflictPolicies)
  let followStrategy ← required fields "follow_strategy" (toChoice followStrategies)
  return (path, ⟨conflictPolicy, followStrategy⟩)

/-- The settings of generic terminals. -/
def genericOf (v : SettingValue) : Except SettingsError GenericTerminals := do
  let d : GenericTerminals := {}
  let fields ← v.toFields ["identifier", "int_constant", "double_constant", "char_constant"]
  let identifier ← defaulted fields "identifier" d.identifier toText
  let intLiteral ← defaulted fields "int_constant" d.intLiteral toText
  let doubleLiteral ← defaulted fields "double_constant" d.doubleLiteral toText
  let charLiteral ← defaulted fields "char_constant" d.charLiteral toText
  return ⟨identifier, intLiteral, doubleLiteral, charLiteral⟩

/-- The settings of the parser. -/
def parseOf (v : SettingValue) : Except SettingsError ParseOptions := do
  let d : ParseOptions := {}
  let fields ← v.toFields ["strict_end_of_input", "generic_terminals"]
  let strict ← defaulted fields "strict_end_of_input" d.strict toBool
  let generic ← defaulted fields "generic_terminals" d.generic genericOf
  return ⟨strict, generic⟩

/-- The settings of the output. -/
def outputOf (v : SettingValue) : Except SettingsError String := do
  required (← v.toFields ["format"]) "format" toText

/-- All settings from one table. -/
def ofValue (v : SettingValue) : Except SettingsError FrontendSettings := do
  let fields ← v.toFields ["grammar", "parser", "output"]
  let (grammarPath, compile) ← required fields "grammar" grammarOf
  let parse ← required fields "parser" parseOf
  let reportName ← required fields "output" outputOf
  return ⟨grammarPath, compile, parse, reportName⟩

/-- The path of an override. -/
def pathOf (key : String) : Except SettingsError SettingPath :=
  match SettingPath.ofText? key with
  | some path => .ok path
  | none => .error .badPath

/-- Add the contents of a file as a layer; a file without contents is missing. -/
def addFile (root : SettingValue) (file : Option String) : Except SettingsError SettingValue :=
  match file with
  | none => .error .missingFile
  | some contents =>
    match Toml.ofText? contents with
    | some entries => .ok (root.addLayer entries)
    | none => .error .malformedFile

/-- The settings of files, in order, and of overrides, each a key with its value, over the
defaults. -/
def load (files : List (Option String)) (overrides : List (String × SettingValue)) :
    Except SettingsError FrontendSettings := do
  let overrides ← overrides.mapM fun (key, v) => (pathOf key).map (·, v)
  let layered ← files.foldlM addFile defaults
  ofValue (overrides.foldl (fun root (path, v) => root.setPath path v) layered)

end FrontendSettings

end PredictiveFrontend

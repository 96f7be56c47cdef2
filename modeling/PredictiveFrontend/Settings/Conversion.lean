import PredictiveFrontend.Settings.Value

/-!
# What settings stand for

A setting is converted to the type of what it sets: scalars into each other where that makes sense,
words to one of several choices, tables and lists to records.
-/

namespace PredictiveFrontend

/-- Why the settings cannot be used. -/
inductive SettingsError where
  /-- A key of an override is no path. -/
  | badPath
  /-- A file of settings does not exist or cannot be read. -/
  | missingFile
  /-- A file of settings breaks the rules of its format. -/
  | malformedFile
  /-- A scalar cannot be converted to the type that is needed. -/
  | wrongType
  /-- A value has the wrong shape, is missing, or is none of the choices. -/
  | invalid
  deriving DecidableEq, Repr

namespace SettingValue

/-- The words for truth. -/
def trueWords : List String := ["1", "true", "on", "yes"]

/-- The words for falsehood. -/
def falseWords : List String := ["0", "false", "off", "no"]

/-- A truth value: numbers other than zero are true, and texts are words for one of the two. -/
def toBool : SettingValue → Except SettingsError Bool
  | boolean b => .ok b
  | integer n => .ok (n != 0)
  | float x => .ok !x.isZero
  | text s =>
    if s.toLower ∈ trueWords then .ok true
    else if s.toLower ∈ falseWords then .ok false
    else .error .wrongType
  | _ => .error .wrongType

/-- A text: scalars by what they are written as. -/
def toText : SettingValue → Except SettingsError String
  | text s => .ok s
  | boolean b => .ok (if b then "true" else "false")
  | integer n => .ok (toString n)
  | float x => .ok x.text
  | _ => .error .wrongType

/-- One of several choices, by its word or by a table with the word as its only key. -/
def toChoice {α : Type} (choices : List (String × α)) (v : SettingValue) :
    Except SettingsError α :=
  let word? :=
    match v with
    | text s => some s
    | table [(key, _)] => some key
    | _ => none
  match word?.bind fun word => choices.find? fun choice => choice.1 == word.toLower with
  | some choice => .ok choice.2
  | none => .error .invalid

/-- The fields of a record, by name from a table or by position from a list. -/
def toFields (names : List String) (v : SettingValue) :
    Except SettingsError (List (String × SettingValue)) :=
  match v with
  | table entries => .ok entries
  | list items => .ok (names.zip items)
  | _ => .error .invalid

/-- A field that must be there. -/
def required {α : Type} (fields : List (String × SettingValue)) (name : String)
    (convert : SettingValue → Except SettingsError α) : Except SettingsError α :=
  match fields.lookup name with
  | some v => convert v
  | none => .error .invalid

/-- A field with a default. -/
def defaulted {α : Type} (fields : List (String × SettingValue)) (name : String) (default : α)
    (convert : SettingValue → Except SettingsError α) : Except SettingsError α :=
  match fields.lookup name with
  | some v => convert v
  | none => .ok default

end SettingValue

end PredictiveFrontend

import PredictiveFrontend.Toml.Number
import PredictiveFrontend.Toml.Table
import PredictiveFrontend.Toml.Text

/-!
# TOML texts

A TOML text is a list of statements, one per line: headers, which open a table, and keys with their
values, which go into the table opened last. A text that breaks a rule anywhere says nothing.
-/

namespace PredictiveFrontend.Toml

open TextReader

/-- A list of values between brackets, over several lines if wanted. -/
def listOf (value : TextReader SettingValue) : TextReader SettingValue := do
  word "["
  layout
  let items ← optional? (separated (do layout; let v ← value; layout; return v) (word ","))
  let _ ← skips (if items.isSome then "," else "")
  layout
  word "]"
  return .list (items.getD [])

/-- A key and its value. -/
def entry (value : TextReader SettingValue) : TextReader (List String × SettingValue) := do
  let path ← key
  word "="
  blanks
  let v ← value
  return (path, v)

/-- A key with its value put among the entries of the table of a header. -/
def assignIn (header : List String) (entries : Entries) (e : List String × SettingValue) :
    Option Entries :=
  match e.1.getLast? with
  | some last =>
    Entries.changeAt false (Entries.assign e.1.dropLast last e.2) header .header entries
  | none => none

/-- A table between braces, on one line. -/
def inlineTable (value : TextReader SettingValue) : TextReader SettingValue := do
  word "\x7b"
  blanks
  let entries ← optional? (separated (do let e ← entry value; blanks; return e) (word ","))
  word "\x7d"
  match (entries.getD []).foldlM (assignIn []) [] with
  | some table => return .table (finishEntries table)
  | none => failure

/-- A value that holds no others. -/
def scalar : TextReader SettingValue := do
  match ← peek with
  | some '"' | some '\'' => return .text (← text)
  | some 't' => word "true"; return .boolean true
  | some 'f' => word "false"; return .boolean false
  | _ => number

/-- A value in which lists and tables are nested no deeper than given. -/
def value : Nat → TextReader SettingValue
  | 0 => scalar
  | depth + 1 => do
    match ← peek with
    | some '[' => listOf (value depth)
    | some '\x7b' => inlineTable (value depth)
    | _ => scalar

/-- A statement of a TOML text. -/
inductive Statement where
  /-- The header of a table. -/
  | header (path : List String)
  /-- The header of one more table of a list. -/
  | nextHeader (path : List String)
  /-- A key and its value. -/
  | entry (path : List String) (value : SettingValue)
  deriving Repr

/-- A statement. -/
def statement : TextReader Statement := do
  if ← skips "[[" then
    let path ← key
    word "]]"
    return .nextHeader path
  else if ← skips "[" then
    let path ← key
    word "]"
    return .header path
  else
    let (path, v) ← Toml.entry (value deepest)
    return .entry path v

/-- A line, which may hold no statement. -/
def line : TextReader (Option Statement) := do
  blanks
  let s ← optional? statement
  lineEnd
  return s

/-- The lines of a text; a byte order mark in front of them is passed over. -/
def lines : TextReader (List (Option Statement)) := do
  let _ ← skips "\ufeff"
  many line

/-- The entries made by statements, the first of them in the table of a header. -/
def run (header : List String) (entries : Entries) : List Statement → Option Entries
  | [] => some entries
  | .entry path v :: rest => do run header (← assignIn header entries (path, v)) rest
  | .header path :: rest => do
    run path (← entries.openTable path.dropLast (← path.getLast?)) rest
  | .nextHeader path :: rest => do
    run path (← entries.openNextTable path.dropLast (← path.getLast?)) rest

/-- The settings of a TOML text. -/
def ofText? (text : String) : Option (List (String × SettingValue)) := do
  let statements ← TextReader.whole? lines text.toList
  return finishEntries (← run [] [] (statements.filterMap id))

end PredictiveFrontend.Toml

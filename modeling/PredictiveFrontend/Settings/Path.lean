import PredictiveFrontend.Settings.Value

/-!
# Paths to settings

A path names a setting inside nested tables, its parts joined by points. Letters of the basic Latin
block count the same in both cases. Setting a table adds its entries one by one to what is there;
any other value takes the place of what was there before.
-/

namespace PredictiveFrontend

/-- A path into nested tables: the parts from the outermost table inwards, at least one. -/
structure SettingPath where
  first : String
  others : List String
  deriving DecidableEq, Repr

namespace SettingPath

/-- A character of a part of a path. -/
def isPartChar (c : Char) : Bool :=
  c.isAlphanum || c == '_' || c == '-' || c == ' '

/-- The parts between the points of a text. -/
def partsOf : List Char → List (List Char)
  | [] => [[]]
  | c :: rest =>
    if c = '.' then [] :: partsOf rest
    else match partsOf rest with
      | [] => [[c]]
      | part :: parts => (c :: part) :: parts

/-- Read a path; no part may be empty. -/
def ofText? (text : String) : Option SettingPath :=
  let parts := partsOf text.toList
  if parts.all fun part => !part.isEmpty && part.all isPartChar then
    match parts.map String.ofList with
    | first :: others => some ⟨first, others⟩
    | [] => none
  else none

end SettingPath

namespace SettingValue

/-- The entries with a value behind a key, in the place of the one that was there. -/
def put (entries : List (String × SettingValue)) (key : String) (v : SettingValue) :
    List (String × SettingValue) :=
  match entries with
  | [] => [(key, v)]
  | (k, old) :: rest => if k = key then (k, v) :: rest else (k, old) :: put rest key v

/-- The value behind a key of a table. -/
def get? (v : SettingValue) (key : String) : Option SettingValue :=
  v.entries.lookup key

mutual

/-- Set a value behind a key of a table; what is no table becomes one. -/
def set (root : SettingValue) (key : String) : SettingValue → SettingValue
  | table incoming =>
    let target := (root.get? key.toLower).getD (table [])
    table (put root.entries key.toLower (setAll target incoming))
  | v => table (put root.entries key.toLower v)

/-- Set several values behind their keys, in order. -/
def setAll (root : SettingValue) : List (String × SettingValue) → SettingValue
  | [] => root
  | (key, v) :: rest => setAll (set root key v) rest

end

/-- Set a value at a path; tables that are missing on the way are made. -/
def setAt (root : SettingValue) (v : SettingValue) : String → List String → SettingValue
  | key, [] => set root key v
  | key, next :: others =>
    let below := (root.get? key.toLower).getD (table [])
    table (put root.entries key.toLower (setAt below v next others))

/-- Set a value at a path. -/
def setPath (root : SettingValue) (path : SettingPath) (v : SettingValue) : SettingValue :=
  setAt root v path.first path.others

/-- Add a layer of settings, in which a key that is a path stands for that path. -/
def addLayer (root : SettingValue) (entries : List (String × SettingValue)) : SettingValue :=
  entries.foldl
    (fun root entry =>
      match SettingPath.ofText? entry.1 with
      | some path => root.setPath path entry.2
      | none => root.set entry.1 entry.2)
    root

end SettingValue

end PredictiveFrontend

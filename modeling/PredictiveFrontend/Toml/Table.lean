import PredictiveFrontend.Settings.Value

/-!
# Tables under construction

A table of a TOML text is opened by a header, or it comes up because a longer header or a dotted
key goes through it. A header opens a table once; it may open one that only longer headers went
through. Dotted keys go through tables that are not opened by a header, and end in one that dotted
keys made. A key is given a value once.
-/

namespace PredictiveFrontend.Toml

/-- How a table has come up. -/
inductive Origin where
  /-- Its own header opened it. -/
  | header
  /-- A longer header goes through it. -/
  | throughHeader
  /-- A dotted key goes through it. -/
  | throughKey
  deriving DecidableEq, Repr

/-- What stands behind a key of a table under construction. -/
inductive Node where
  | value (v : SettingValue)
  | table (origin : Origin) (entries : List (String × Node))
  /-- Tables opened by repeated headers: the earlier ones, and the last one. -/
  | tables (earlier : List (List (String × Node))) (last : List (String × Node))
  deriving Repr

/-- The entries of a table under construction. -/
abbrev Entries := List (String × Node)

namespace Entries

/-- Change what stands behind a key, or put something behind a new key. -/
def change (entries : Entries) (key : String) (f : Option Node → Option Node) : Option Entries :=
  match entries with
  | [] => (f none).map fun node => [(key, node)]
  | (k, node) :: rest =>
    if k = key then (f (some node)).map fun node => (k, node) :: rest
    else (change rest key f).map ((k, node) :: ·)

/-- Change the entries of the table at a path. -/
def changeAt (dotted : Bool) (f : Origin → Entries → Option Entries) :
    List String → Origin → Entries → Option Entries
  | [], origin, entries => f origin entries
  | key :: path, _, entries =>
    entries.change key fun
      | none =>
        let origin := if dotted then .throughKey else .throughHeader
        (changeAt dotted f path origin []).map (.table origin)
      | some (.table origin below) =>
        if dotted ∧ origin = .header then none
        else (changeAt dotted f path origin below).map (.table origin)
      | some (.tables earlier last) =>
        (changeAt dotted f path .header last).map (.tables earlier)
      | some (.value _) => none

/-- Give a value to the last part of a key, in the table at the parts before it. -/
def assign (path : List String) (key : String) (v : SettingValue) (origin : Origin)
    (entries : Entries) : Option Entries :=
  changeAt true
    (fun origin below =>
      if !path.isEmpty && origin != .throughKey then none
      else below.change key fun
        | none => some (.value v)
        | some _ => none)
    path origin entries

/-- Open the table of a header. -/
def openTable (path : List String) (key : String) (entries : Entries) : Option Entries :=
  changeAt false
    (fun _ below => below.change key fun
      | none => some (.table .header [])
      | some (.table .throughHeader inside) => some (.table .header inside)
      | some _ => none)
    path .header entries

/-- Open one more table of a repeated header. -/
def openNextTable (path : List String) (key : String) (entries : Entries) : Option Entries :=
  changeAt false
    (fun _ below => below.change key fun
      | none => some (.tables [] [])
      | some (.tables earlier last) => some (.tables (earlier ++ [last]) [])
      | some _ => none)
    path .header entries

end Entries

mutual

/-- The value that a node has become. -/
def Node.finish : Node → SettingValue
  | .value v => v
  | .table _ entries => .table (finishEntries entries)
  | .tables earlier last => .list (finishTables earlier ++ [.table (finishEntries last)])

/-- The values of the entries of a table. -/
def finishEntries : List (String × Node) → List (String × SettingValue)
  | [] => []
  | (key, node) :: rest => (key, node.finish) :: finishEntries rest

/-- The values of several tables. -/
def finishTables : List (List (String × Node)) → List SettingValue
  | [] => []
  | entries :: rest => .table (finishEntries entries) :: finishTables rest

end

end PredictiveFrontend.Toml

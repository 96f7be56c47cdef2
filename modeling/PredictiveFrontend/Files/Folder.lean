import PredictiveFrontend.Files.ReadFailure

/-!
# Folders

A folder holds files below it, each at a path of names. A path is read from the folder on: empty
names and `.` stay where they are, `..` goes up, and every name in front of another one has to be
that of a folder. Nothing is known of what lies outside the folder.
-/

namespace PredictiveFrontend

/-- A file and its place below a folder. -/
structure FolderFile where
  /-- The names that lead to the file, its own name last. -/
  path : List String
  bytes : List UInt8
  deriving DecidableEq, Repr

/-- A folder of files. -/
structure Folder where
  files : List FolderFile
  deriving DecidableEq, Repr

namespace Folder

/-- What a path leads to. -/
inductive Place where
  /-- A folder below this one, or this one itself. -/
  | folder (path : List String)
  /-- A file. -/
  | file (bytes : List UInt8)
  /-- A folder around this one. -/
  | outside
  deriving DecidableEq, Repr

/-- The names of a path. -/
def namesOf (path : String) : List String :=
  path.splitOn "/"

/-- The longest name that a file can have, in bytes. -/
def longestName : Nat := 255

/-- What has a name in a folder below this one. -/
def find? (f : Folder) (path : List String) : Option Place :=
  match f.files.find? (·.path == path) with
  | some file => some (.file file.bytes)
  | none => if f.files.any fun file => path.isPrefixOf file.path then some (.folder path) else none

/-- Go on by one name. -/
def step (f : Folder) (place : Place) (name : String) : Except ReadFailure Place :=
  if longestName < name.utf8ByteSize then .error .nameTooLong
  else match place with
    | .file _ => .error .notADirectory
    | .outside => if name ∈ ["", ".", ".."] then .ok .outside else .error .notFound
    | .folder path =>
      if name = "" ∨ name = "." then .ok place
      else if name = ".." then .ok (if path.isEmpty then .outside else .folder path.dropLast)
      else match f.find? (path ++ [name]) with
        | some place => .ok place
        | none => .error .notFound

/-- The bytes of the file at a path. -/
def read (f : Folder) (path : String) : Except ReadFailure (List UInt8) := do
  if path = "" then throw .notFound
  let start : Place := if path.startsWith "/" then .outside else .folder []
  match ← (namesOf path).foldlM f.step start with
  | .file bytes => return bytes
  | _ => throw .isADirectory

end Folder

end PredictiveFrontend

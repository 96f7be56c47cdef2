import PredictiveFrontend.Document.Basic
import PredictiveFrontend.Text.Hexadecimal

/-!
# JSON text

A document in JSON, every item and every field on a line of its own and indented by two blanks for
each level. A list without items is written in one piece. Only quotes, backslashes and controls are
escaped.
-/

namespace PredictiveFrontend

open Text

namespace Document

/-- A character between the quotes of a JSON text. -/
def jsonChar (c : Char) : List Char :=
  if c = '"' ∨ c = '\\' then ['\\', c]
  else if c = '\x08' then ['\\', 'b']
  else if c = '\t' then ['\\', 't']
  else if c = '\n' then ['\\', 'n']
  else if c = '\x0c' then ['\\', 'f']
  else if c = '\r' then ['\\', 'r']
  else if c.toNat < 0x20 then ['\\', 'u'] ++ lowerHexPadded 4 c.toNat
  else [c]

/-- A text between quotes. -/
def jsonText (s : String) : String :=
  String.ofList ('"' :: s.toList.flatMap jsonChar ++ ['"'])

/-- Entries on lines of their own between two brackets, behind a margin. -/
def jsonBlock (opening closing margin : String) (entries : List String) : String :=
  if entries.isEmpty then opening ++ closing
  else
    opening ++ "\n" ++ String.intercalate ",\n" (entries.map (margin ++ "  " ++ ·)) ++ "\n" ++
      margin ++ closing

mutual

/-- A document in JSON; `margin` is what stands in front of the line it begins on. -/
def toJson (margin : String) : Document → String
  | null => "null"
  | nat n => toString n
  | text s => jsonText s
  | list items => jsonBlock "[" "]" margin (toJsonItems (margin ++ "  ") items)
  | record fields => jsonBlock "\x7b" "\x7d" margin (toJsonFields (margin ++ "  ") fields)

/-- The items of a list in JSON. -/
def toJsonItems (margin : String) : List Document → List String
  | [] => []
  | d :: rest => toJson margin d :: toJsonItems margin rest

/-- The fields of a record in JSON. -/
def toJsonFields (margin : String) : List (String × Document) → List String
  | [] => []
  | (key, d) :: rest => (jsonText key ++ ": " ++ toJson margin d) :: toJsonFields margin rest

end

/-- The JSON text of a document. -/
def json (d : Document) : String :=
  toJson "" d

end Document

end PredictiveFrontend

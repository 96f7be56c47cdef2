import PredictiveFrontend.Text.Hexadecimal
import PredictiveFrontend.Text.Reader

/-!
# Texts and layout in TOML

A text stands between double quotes, with escapes, or between single quotes, without. Between three
quotes it may go over several lines; a line break right behind the opening quotes does not count,
and every break counts as a line feed. Up to two quotes may stand in front of the three closing
ones.
-/

namespace PredictiveFrontend.Toml

open Text TextReader

/-- Blanks inside a line. -/
def blanks : TextReader Unit := do
  let _ ← takeWhile fun c => c == ' ' || c == '\t'

/-- A character of a remark. -/
def isRemarkChar (c : Char) : Bool :=
  c == '\t' || 0x20 ≤ c.toNat

/-- A remark up to the end of its line. -/
def remark : TextReader Unit := do
  word "#"
  let _ ← takeWhile isRemarkChar

/-- The end of a line that is followed by another one. -/
def lineBreak : TextReader Unit := do
  let _ ← skips "\r"
  word "\n"

/-- Blanks, remarks and line breaks. -/
def layout : TextReader Unit := do
  let _ ← many do
    match ← peek with
    | some '#' => remark
    | some '\n' | some '\r' => lineBreak
    | _ => let _ ← one fun c => c == ' ' || c == '\t'

/-- The rest of a line behind a statement: blanks and a remark. -/
def lineEnd : TextReader Unit := do
  blanks
  let _ ← optional? remark
  if (← get).isEmpty then return else lineBreak

/-- A character that stands for itself between single quotes. -/
def isLiteralChar (c : Char) : Bool :=
  c == '\t' || (0x20 ≤ c.toNat && c.toNat ≠ 0x7F && c ≠ '\'')

/-- A character that stands for itself between double quotes. -/
def isBasicChar (c : Char) : Bool :=
  c == '\t' || (0x20 ≤ c.toNat && c.toNat ≠ 0x7F && c ≠ '"' && c ≠ '\\')

/-- A character given by the hexadecimal digits of its code point. -/
def codePoint (digits : Nat) : TextReader Char := do
  let ds ← exactly digits fun c => (hexDigitValue? c).isSome
  match numberOfDigits? 16 ds with
  | some n => if n.isValidChar then return Char.ofNat n else failure
  | none => failure

/-- An escape, without its backslash. -/
def escape : TextReader Char := do
  match ← next with
  | 'b' => return '\x08'
  | 't' => return '\t'
  | 'n' => return '\n'
  | 'f' => return '\x0c'
  | 'r' => return '\r'
  | '"' => return '"'
  | '\\' => return '\\'
  | 'u' => codePoint 4
  | 'U' => codePoint 8
  | _ => failure

/-- A character between double quotes. -/
def basicChar : TextReader Char := do
  if ← skips "\\" then escape else one isBasicChar

/-- A text of one line between double quotes. -/
def basicText : TextReader String := do
  word "\""
  let cs ← many basicChar
  word "\""
  return String.ofList cs

/-- A text of one line between single quotes. -/
def literalText : TextReader String := do
  word "'"
  let cs ← takeWhile isLiteralChar
  word "'"
  return String.ofList cs

/-- A backslash at the end of a line, and all layout up to the next text. -/
def continuation : TextReader Unit := do
  word "\\"
  blanks
  lineBreak
  let _ ← many do
    if (← peek) = some ' ' ∨ (← peek) = some '\t' then let _ ← next else lineBreak

/-- One or two quotes inside a text between three. -/
def innerQuotes (quote : Char) : TextReader (List Char) := do
  let quotes ← takeWhile (· == quote)
  if 0 < quotes.length ∧ quotes.length < 3 then return quotes else failure

/-- The quotes that close a text between three, and those that still belong to it. -/
def closingQuotes (quote : Char) : TextReader (List Char) := do
  let quotes ← exactly 3 (· == quote)
  let one ← skips (String.singleton quote)
  let two ← if one then skips (String.singleton quote) else pure false
  return quotes.take ((if one then 1 else 0) + (if two then 1 else 0))

/-- A piece of a text between three double quotes. -/
def basicPiece : TextReader (List Char) := do
  match ← peek with
  | some '"' => innerQuotes '"'
  | some '\\' =>
    match ← optional? continuation with
    | some () => return []
    | none => return [← basicChar]
  | some '\n' | some '\r' => lineBreak; return ['\n']
  | _ => return [← basicChar]

/-- A piece of a text between three single quotes. -/
def literalPiece : TextReader (List Char) := do
  match ← peek with
  | some '\'' => innerQuotes '\''
  | some '\n' | some '\r' => lineBreak; return ['\n']
  | _ => return [← one isLiteralChar]

/-- A text between three quotes, of the given pieces. -/
def longText (quote : Char) (piece : TextReader (List Char)) : TextReader String := do
  let _ ← exactly 3 (· == quote)
  let _ ← optional? lineBreak
  let pieces ← many piece
  let last ← closingQuotes quote
  return String.ofList (pieces.flatten ++ last)

/-- A text of any of the four forms. -/
def text : TextReader String := fun cs =>
  if ['"', '"', '"'].isPrefixOf cs then longText '"' basicPiece cs
  else if ['\'', '\'', '\''].isPrefixOf cs then longText '\'' literalPiece cs
  else if ['"'].isPrefixOf cs then basicText cs
  else literalText cs

/-- A part of a key: a text of one line, or a bare word. -/
def keyPart : TextReader String := do
  match ← peek with
  | some '"' => basicText
  | some '\'' => literalText
  | _ =>
    let cs ← takeWhile fun c => c.isAlphanum || c == '_' || c == '-'
    if cs.isEmpty then failure else return String.ofList cs

/-- How deep keys and values can be nested. -/
def deepest : Nat := 79

/-- A key: parts joined by points. -/
def key : TextReader (List String) := do
  let parts ← separated (do blanks; let part ← keyPart; blanks; return part) (word ".")
  if parts.length ≤ deepest then return parts else failure

end PredictiveFrontend.Toml

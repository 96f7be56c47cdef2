import PredictiveFrontend.Document.Basic
import PredictiveFrontend.Document.PlainScalar

/-!
# YAML text

A document in YAML, every item and every field on a line of its own. Items stand behind a dash, and
a list below a key is not indented. A text is written as it is where that is unambiguous, else
between single quotes, and between double quotes if it holds characters that cannot be printed.
-/

namespace PredictiveFrontend

open Text

namespace Yaml

/-- The characters that end a line. -/
def isBreak (c : Char) : Bool :=
  c ∈ ['\n', '\r', '\u0085', '\u2028', '\u2029']

/-- The characters that need no escape. -/
def isPrintable (c : Char) : Bool :=
  let n := c.toNat
  n == 0x0A || (0x20 ≤ n && n ≤ 0x7E) || (0xA0 ≤ n && n ≤ 0xD7FF) ||
    (0xE000 ≤ n && n ≤ 0xFFFD && n != 0xFEFF) || 0x10000 ≤ n

/-- The characters with a meaning at the start of a text. -/
def indicators : List Char :=
  ['#', ',', '[', ']', '\x7b', '\x7d', '&', '*', '!', '|', '>', '\'', '"', '%', '@', '\u0060']

/-- Whether the text ends, or goes on with a blank or a break. -/
def endsWord : List Char → Bool
  | [] => true
  | c :: _ => c == ' ' || c == '\t' || isBreak c

/-- Whether a text begins like something other than a text. -/
def startsSpecial : List Char → Bool
  | '-' :: '-' :: '-' :: _ => true
  | '.' :: '.' :: '.' :: _ => true
  | c :: rest => c ∈ indicators || ((c == '?' || c == ':' || c == '-') && endsWord rest)
  | [] => true

/-- Whether a colon in front of a blank, or a number sign behind one, stands in a text. -/
def breaksOff (previous : Char) : List Char → Bool
  | [] => false
  | c :: rest =>
    (c == ':' && endsWord rest) || (c == '#' && endsWord [previous]) || breaksOff c rest

/-- Whether a text can be written without quotes. -/
def isPlain (s : String) : Bool :=
  let cs := s.toList
  !PlainScalar.isAmbiguous s && !startsSpecial cs &&
    !breaksOff (cs.headD 'x') cs.tail && cs.head? != some ' ' && cs.getLast? != some ' ' &&
    !cs.any isBreak && cs.all isPrintable

/-- A character between double quotes. -/
def escaped (c : Char) : List Char :=
  let n := c.toNat
  match n with
  | 0x00 => ['\\', '0']
  | 0x07 => ['\\', 'a']
  | 0x08 => ['\\', 'b']
  | 0x09 => ['\\', 't']
  | 0x0A => ['\\', 'n']
  | 0x0B => ['\\', 'v']
  | 0x0C => ['\\', 'f']
  | 0x0D => ['\\', 'r']
  | 0x1B => ['\\', 'e']
  | 0x22 => ['\\', '"']
  | 0x5C => ['\\', '\\']
  | 0x85 => ['\\', 'N']
  | 0x2028 => ['\\', 'L']
  | 0x2029 => ['\\', 'P']
  | _ =>
    if isPrintable c then [c]
    else if n ≤ 0xFF then ['\\', 'x'] ++ upperHexPadded 2 n
    else if n ≤ 0xFFFF then ['\\', 'u'] ++ upperHexPadded 4 n
    else ['\\', 'U'] ++ upperHexPadded 8 n

/-- The characters between single quotes. Behind a break the text goes on at the indentation. -/
def singleQuotedChars (indentation : Nat) (behindBreak : Bool) : List Char → List Char
  | [] => if behindBreak then List.replicate indentation ' ' else []
  | c :: rest =>
    if isBreak c then c :: singleQuotedChars indentation true rest
    else
      (if behindBreak then List.replicate indentation ' ' else []) ++
        (if c = '\'' then ['\'', '\''] else [c]) ++ singleQuotedChars indentation false rest

/-- A text in the plainest of the three forms that it can have. -/
def scalar (indentation : Nat) (s : String) : String :=
  if isPlain s then s
  else if s.toList.all isPrintable then
    String.ofList ('\'' :: singleQuotedChars indentation false s.toList ++ ['\''])
  else String.ofList ('"' :: s.toList.flatMap escaped ++ ['"'])

/-- The lines of an item: a dash in front of the first one. -/
def hang : List String → List String
  | [] => []
  | first :: others => ("- " ++ first) :: others.map ("  " ++ ·)

mutual

/-- The lines of a document, without a margin; `column` is where the lines will begin. -/
def lines (column : Nat) : Document → List String
  | .null => ["null"]
  | .nat n => [toString n]
  | .text s => [scalar (column + 2) s]
  | .list [] => ["[]"]
  | .list items => itemLines column items
  | .record [] => ["\x7b\x7d"]
  | .record fields => fieldLines column fields

/-- The lines of the items of a list. -/
def itemLines (column : Nat) : List Document → List String
  | [] => []
  | d :: rest =>
    (match d with
      | .record (f :: fs) => hang (fieldLines (column + 2) (f :: fs))
      | .list (d :: ds) => hang (itemLines (column + 2) (d :: ds))
      | d => hang (lines column d)) ++ itemLines column rest

/-- The lines of the fields of a record; the keys are plain words. -/
def fieldLines (column : Nat) : List (String × Document) → List String
  | [] => []
  | (key, d) :: rest =>
    (match d with
      | .record (f :: fs) => (key ++ ":") :: (fieldLines (column + 2) (f :: fs)).map ("  " ++ ·)
      | .list (d :: ds) => (key ++ ":") :: itemLines column (d :: ds)
      | d => (lines column d).map (key ++ ": " ++ ·)) ++ fieldLines column rest

end

end Yaml

/-- The YAML text of a document. -/
def Document.yaml (d : Document) : String :=
  String.join ((Yaml.lines 0 d).map (· ++ "\n"))

end PredictiveFrontend

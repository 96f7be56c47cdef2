import PredictiveFrontend.Text.Lines
import PredictiveFrontend.Text.Quoted
import PredictiveFrontend.Token.Basic
import PredictiveFrontend.Token.CommentMode
import PredictiveFrontend.Token.Pattern

/-!
# Scanning source lines

A source is scanned line by line, each line from left to right. At every position the patterns are
tried against all that is left of the line, the lexeme read is classified by the comment mode, and
the scan goes on behind it. A scan that meets text which no pattern reads stops there; the mode it
had reached is part of its outcome, so that a source can be scanned in several pieces.
-/

namespace PredictiveFrontend

open Text

/-- A line of a source with its number. -/
structure SourceLine where
  /-- The number of the line; a source counts its lines from one. -/
  number : Nat
  /-- The characters of the line. -/
  text : List Char
  deriving DecidableEq, Repr, Inhabited

namespace SourceLine

/-- The lines of a source, numbered from one; a carriage return stays part of its line. -/
def ofSource (source : String) : List SourceLine :=
  (lines source.toList).zipIdx.map fun (text, i) => ⟨i + 1, text⟩

end SourceLine

/-- A text that no pattern reads, and where it stands. -/
structure LexError where
  /-- The number of the line. -/
  line : Nat
  /-- The column at which nothing was recognised. -/
  column : Nat
  /-- All that was left of the line. -/
  remainder : String
  deriving DecidableEq, Repr, Inhabited

namespace LexError

/-- The text of the error. -/
def message (e : LexError) : String :=
  s!"no token matches at line {e.line}, column {e.column}: " ++ quoted e.remainder

end LexError

/-- What a scan has come to: its tokens or the text it stopped at, and the mode it reached. -/
structure Scan where
  /-- All tokens in order, or the first error. -/
  result : Except LexError (List Token)
  /-- The comment mode after the last token read. -/
  mode : CommentMode

namespace Scan

/-- Scan what is left of a line from a column on. -/
def restOfLine (mode : CommentMode) (line column : Nat) (text : List Char) : Scan :=
  match text with
  | [] => ⟨.ok [], mode⟩
  | c :: rest =>
    match recognize (c :: rest) with
    | none => ⟨.error ⟨line, column, String.ofList (c :: rest)⟩, mode⟩
    | some (kind, lexeme) =>
      let (emitted, next) := mode.classify kind
      let width := lexeme.length
      let token : Token := ⟨column, line, column - 1 + width, String.ofList lexeme, emitted⟩
      let scan := restOfLine next line (column + width) (rest.drop (width - 1))
      ⟨scan.result.map (token :: ·), scan.mode⟩
termination_by text.length
decreasing_by simp only [List.length_drop, List.length_cons]; omega

/-- Scan lines in order, each from its first column, stopping at the first error. -/
def lines (mode : CommentMode) : List SourceLine → Scan
  | [] => ⟨.ok [], mode⟩
  | line :: rest =>
    let first := restOfLine mode.atLineStart line.number 1 line.text
    match first.result with
    | .error e => ⟨.error e, first.mode⟩
    | .ok tokens =>
      let others := lines first.mode rest
      ⟨others.result.map (tokens ++ ·), others.mode⟩

end Scan

namespace Token

/-- All tokens of a source, scanned from code. -/
def ofSource (source : String) : Except LexError (List Token) :=
  (Scan.lines .code (SourceLine.ofSource source)).result

end Token

end PredictiveFrontend

import PredictiveFrontend.Token.Basic

/-!
# Parse errors

A parse fails at a token that no rule allows, or at the end of input if more was needed. A token
that stands for no terminal of the grammar is another kind of error: it is the grammar that does
not fit the tokens.
-/

namespace PredictiveFrontend

/-- A token, or the end of input, that is not allowed where it stands. -/
structure SyntaxFault where
  /-- The lexeme found; none at the end of input. -/
  found : Option String
  line : Nat
  column : Nat
  /-- The names of the terminals that would have been allowed. -/
  expected : List String
  deriving DecidableEq, Repr, Inhabited

/-- Why a parse fails. -/
inductive ParseError where
  /-- A token that is not allowed where it stands. -/
  | unexpected (fault : SyntaxFault)
  /-- A token that stands for no terminal. -/
  | unmapped (lexeme : String) (kind : TokenKind) (line column : Nat)
  /-- The table predicts rules without end. -/
  | unbounded
  deriving DecidableEq, Repr

namespace SyntaxFault

/-- The text of a fault. -/
def message (e : SyntaxFault) : String :=
  s!"syntax error at line {e.line}, column {e.column}: " ++
    (match e.found with
      | some lexeme => s!"unexpected '{lexeme}'"
      | none => "unexpected end of input") ++
    (if e.expected.isEmpty then "" else ", expected " ++ String.intercalate " | " e.expected)

end SyntaxFault

namespace ParseError

/-- The text of an error. -/
def message : ParseError → String
  | .unexpected fault => fault.message
  | .unmapped lexeme kind line column =>
    "token '" ++ lexeme ++ "' (" ++ kind.name ++
      s!") at line {line}, column {column} has no grammar terminal"
  | .unbounded => "the prediction table expands nonterminals without end"

end ParseError

end PredictiveFrontend

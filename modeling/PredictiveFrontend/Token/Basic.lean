import PredictiveFrontend.Token.Kind

/-!
# Tokens

A token is a classified lexeme with its position. Lines and columns count from one; a column
counts characters, so the lexeme ends in column `endIndex`.
-/

namespace PredictiveFrontend

/-- A classified lexeme at its place in a source. -/
structure Token where
  /-- The column of the first character, from one. -/
  column : Nat
  /-- The number of the line. -/
  line : Nat
  /-- The column of the last character. -/
  endIndex : Nat
  /-- The characters of the token. -/
  lexeme : String
  /-- What the lexeme is. -/
  kind : TokenKind
  deriving DecidableEq, Repr, Inhabited

namespace Token

/-- Whether the grammar sees the token. -/
def isSignificant (t : Token) : Bool :=
  t.kind.isSignificant

/-- The place of the token, written column first. -/
def position (t : Token) : String :=
  s!"[{t.column},{t.line}]"

/-- The token in one line; the lexeme of an auxiliary token is left out. -/
def render (t : Token) : String :=
  if t.isSignificant then t.position ++ " " ++ t.kind.name ++ " '" ++ t.lexeme ++ "'"
  else t.position ++ " " ++ t.kind.name

/-- The tokens that the grammar sees, in order. -/
def significant (tokens : List Token) : List Token :=
  tokens.filter isSignificant

end Token

end PredictiveFrontend

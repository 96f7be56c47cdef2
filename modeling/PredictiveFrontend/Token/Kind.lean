/-!
# Kinds of tokens

The kinds of lexemes of the source language, in the order in which a text is tried against them:
comment delimiters before operators, keywords before identifiers, `==` before `=`. Only
`TokenKind.comment` is never read from a text; it marks what a comment has swallowed.
-/

namespace PredictiveFrontend

/-- The kind of a lexeme. -/
inductive TokenKind where
  -- comment delimiters
  | blockCommentStart | blockCommentEnd | lineComment
  -- layout
  | whiteSpace | tab | carriageReturn | newLine
  -- punctuation
  | openParen | closeParen | openCurly | closeCurly | colon | comma | point
  -- keywords
  | valKeyword | varKeyword | funKeyword | classKeyword | publicKeyword | privateKeyword
  | returnKeyword | ifKeyword | elseKeyword | whileKeyword | trueKeyword | falseKeyword
  | nullKeyword
  -- built-in types
  | intArrayType | charArrayType | intType | charType | doubleType
  -- literals
  | charLiteral | doubleLiteral | intLiteral
  -- operators
  | plus | minus | times | divide | equalEqual | notEqual | assign | greater | less
  -- names
  | identifier
  -- anything inside a comment
  | comment
  deriving DecidableEq, Repr, Inhabited

namespace TokenKind

/-- Every kind, in the order of the declaration. -/
def all : List TokenKind :=
  [.blockCommentStart, .blockCommentEnd, .lineComment, .whiteSpace, .tab, .carriageReturn,
   .newLine, .openParen, .closeParen, .openCurly, .closeCurly, .colon, .comma, .point,
   .valKeyword, .varKeyword, .funKeyword, .classKeyword, .publicKeyword, .privateKeyword,
   .returnKeyword, .ifKeyword, .elseKeyword, .whileKeyword, .trueKeyword, .falseKeyword,
   .nullKeyword, .intArrayType, .charArrayType, .intType, .charType, .doubleType, .charLiteral,
   .doubleLiteral, .intLiteral, .plus, .minus, .times, .divide, .equalEqual, .notEqual, .assign,
   .greater, .less, .identifier, .comment]

theorem mem_all (k : TokenKind) : k ∈ all := by
  cases k <;> decide

/-- The name under which a kind is printed. -/
def name : TokenKind → String
  | .blockCommentStart => "BlockCommentStart"
  | .blockCommentEnd => "BlockCommentEnd"
  | .lineComment => "LineComment"
  | .whiteSpace => "WhiteSpace"
  | .tab => "Tab"
  | .carriageReturn => "CarriageReturn"
  | .newLine => "NewLine"
  | .openParen => "OpenBrace"
  | .closeParen => "CloseBrace"
  | .openCurly => "OpeningCurlyBrace"
  | .closeCurly => "ClosingCurlyBrace"
  | .colon => "Extends"
  | .comma => "Comma"
  | .point => "Point"
  | .valKeyword => "Value"
  | .varKeyword => "Variable"
  | .funKeyword => "Function"
  | .classKeyword => "Class"
  | .publicKeyword => "Public"
  | .privateKeyword => "Private"
  | .returnKeyword => "Return"
  | .ifKeyword => "If"
  | .elseKeyword => "Else"
  | .whileKeyword => "While"
  | .trueKeyword => "True"
  | .falseKeyword => "False"
  | .nullKeyword => "Null"
  | .intArrayType => "ArrayInt"
  | .charArrayType => "ArrayChar"
  | .intType => "Int"
  | .charType => "Char"
  | .doubleType => "Double"
  | .charLiteral => "CharConstant"
  | .doubleLiteral => "DoubleConstant"
  | .intLiteral => "IntConstant"
  | .plus => "Plus"
  | .minus => "Minus"
  | .times => "Multiply"
  | .divide => "Divide"
  | .equalEqual => "EqualEqual"
  | .notEqual => "NotEqual"
  | .assign => "Equal"
  | .greater => "Greater"
  | .less => "Less"
  | .identifier => "Identifier"
  | .comment => "Comment"

/-- The kind of a printed name. -/
def ofName? (name : String) : Option TokenKind :=
  all.find? fun k => k.name == name

/-- The printed name of a kind names no other kind. -/
theorem ofName?_name (k : TokenKind) : ofName? k.name = some k := by
  cases k <;> decide

/-- Layout, comment delimiters and what a comment has swallowed. -/
def isAuxiliary : TokenKind → Bool
  | .blockCommentStart | .blockCommentEnd | .lineComment | .comment
  | .whiteSpace | .tab | .carriageReturn | .newLine => true
  | _ => false

/-- What the grammar sees: every kind that is not auxiliary. -/
def isSignificant (k : TokenKind) : Bool :=
  !k.isAuxiliary

/-- The built-in types. -/
def isType : TokenKind → Bool
  | .intType | .charType | .doubleType | .intArrayType | .charArrayType => true
  | _ => false

end TokenKind

end PredictiveFrontend

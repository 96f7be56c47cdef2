import PredictiveFrontend.Text.DecimalDigit
import PredictiveFrontend.Text.WordCharacter
import PredictiveFrontend.Token.Kind

/-!
# Patterns of lexemes

Every kind of token has one pattern, which reads a lexeme from the start of a text or refuses the
text. A word is never split: keywords, numbers and identifiers read the whole leading run of word
characters or nothing. The first pattern of the table that reads a lexeme decides.
-/

namespace PredictiveFrontend

open Text

/-- The longest leading run of word characters. -/
def wordRun (text : List Char) : List Char :=
  text.takeWhile isWordCharacter

/-- A run of one to nine decimal digits. -/
def isShortNumber (run : List Char) : Bool :=
  0 < run.length && run.length ≤ 9 && run.all isDecimalDigit

/-- A letter of the basic Latin block, followed by at most thirty-one letters, digits or `_`. -/
def isIdentifier : List Char → Bool
  | [] => false
  | c :: rest => c.isAlpha && rest.length ≤ 31 && rest.all fun d => d.isAlphanum || d == '_'

/-- How a lexeme of one kind is read from the start of a text. -/
inductive Pattern where
  /-- The given characters, whatever follows. -/
  | literal (lexeme : String)
  /-- The closer of a block comment, with one more star in front if there is one. -/
  | commentCloser
  /-- A whole word. -/
  | keyword (word : String)
  /-- A letter between single quotes. -/
  | quotedLetter
  /-- Two short numbers around a point. -/
  | fraction
  /-- A short number. -/
  | number
  /-- A word that can be a name. -/
  | identifier
  deriving DecidableEq, Repr

namespace Pattern

/-- The lexeme that a text starts with, if the pattern reads one. -/
def read? (text : List Char) : Pattern → Option (List Char)
  | .literal lexeme => if lexeme.toList.isPrefixOf text then some lexeme.toList else none
  | .commentCloser =>
    if ['*', '*', '/'].isPrefixOf text then some ['*', '*', '/']
    else if ['*', '/'].isPrefixOf text then some ['*', '/'] else none
  | .keyword word => if wordRun text = word.toList then some word.toList else none
  | .quotedLetter =>
    match text with
    | '\'' :: c :: '\'' :: _ => if c.isAlpha then some ['\'', c, '\''] else none
    | _ => none
  | .fraction =>
    let whole := wordRun text
    match text.drop whole.length with
    | '.' :: rest =>
      let decimals := wordRun rest
      if isShortNumber whole && isShortNumber decimals then some (whole ++ '.' :: decimals)
      else none
    | _ => none
  | .number => let run := wordRun text; if isShortNumber run then some run else none
  | .identifier => let run := wordRun text; if isIdentifier run then some run else none

/-- The patterns with the kinds they read, in the order in which they are tried. -/
def table : List (TokenKind × Pattern) :=
  [(.blockCommentStart, .literal "/*"),
   (.blockCommentEnd, .commentCloser),
   (.lineComment, .literal "//"),
   (.whiteSpace, .literal " "),
   (.tab, .literal "\t"),
   (.carriageReturn, .literal "\r"),
   (.newLine, .literal "\n"),
   (.openParen, .literal "("),
   (.closeParen, .literal ")"),
   (.openCurly, .literal "\x7b"),
   (.closeCurly, .literal "\x7d"),
   (.colon, .literal ":"),
   (.comma, .literal ","),
   (.point, .literal "."),
   (.valKeyword, .keyword "val"),
   (.varKeyword, .keyword "var"),
   (.funKeyword, .keyword "fun"),
   (.classKeyword, .keyword "class"),
   (.publicKeyword, .keyword "public"),
   (.privateKeyword, .keyword "private"),
   (.returnKeyword, .keyword "return"),
   (.ifKeyword, .keyword "if"),
   (.elseKeyword, .keyword "else"),
   (.whileKeyword, .keyword "while"),
   (.trueKeyword, .keyword "true"),
   (.falseKeyword, .keyword "false"),
   (.nullKeyword, .keyword "null"),
   (.intArrayType, .literal "Array<Int>"),
   (.charArrayType, .literal "Array<Char>"),
   (.intType, .keyword "Int"),
   (.charType, .keyword "Char"),
   (.doubleType, .keyword "Double"),
   (.charLiteral, .quotedLetter),
   (.doubleLiteral, .fraction),
   (.intLiteral, .number),
   (.plus, .literal "+"),
   (.minus, .literal "-"),
   (.times, .literal "*"),
   (.divide, .literal "/"),
   (.equalEqual, .literal "=="),
   (.notEqual, .literal "!="),
   (.assign, .literal "="),
   (.greater, .literal ">"),
   (.less, .literal "<"),
   (.identifier, .identifier)]

end Pattern

/-- Every kind of lexeme that a text starts with, in the order of the patterns. -/
def recognizeAll (text : List Char) : List (TokenKind × List Char) :=
  Pattern.table.filterMap fun entry => (entry.2.read? text).map (entry.1, ·)

/-- The first lexeme, in the order of the patterns, that a text starts with. -/
def recognize (text : List Char) : Option (TokenKind × List Char) :=
  Pattern.table.findSome? fun entry => (entry.2.read? text).map (entry.1, ·)

/-- The first recognised lexeme leads the list of all of them. -/
theorem recognize_eq_head? (text : List Char) : recognize text = (recognizeAll text).head? := by
  simp only [recognize, recognizeAll, List.head?_filterMap]

end PredictiveFrontend

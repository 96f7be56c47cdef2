import PredictiveFrontend.Token.Kind

/-!
# Comment mode

A scan of a source is at any moment in code, in a line comment or in a block comment. Each lexeme
is classified by the mode in which it is read, and decides the mode of the next one. A line
comment ends with its line, a block comment only at a closer.
-/

namespace PredictiveFrontend

/-- Whether a scan is inside a comment, and inside which kind of comment. -/
inductive CommentMode where
  | code
  | lineComment
  | blockComment
  deriving DecidableEq, Repr, Inhabited

namespace CommentMode

/-- The kind under which a recognised lexeme is emitted, and the mode after it. -/
def classify : CommentMode → TokenKind → TokenKind × CommentMode
  | .code, .lineComment => (.lineComment, .lineComment)
  | .code, .blockCommentStart => (.blockCommentStart, .blockComment)
  | .code, kind => (kind, .code)
  | .lineComment, _ => (.comment, .lineComment)
  | .blockComment, .blockCommentEnd => (.blockCommentEnd, .code)
  | .blockComment, _ => (.comment, .blockComment)

/-- The mode in which a line begins. -/
def atLineStart : CommentMode → CommentMode
  | .lineComment => .code
  | mode => mode

/-- Whether the mode is one of the two comment modes. -/
def inComment (mode : CommentMode) : Bool :=
  mode != .code

/-- The name under which a mode is printed. -/
def name : CommentMode → String
  | .code => "Code"
  | .lineComment => "LineComment"
  | .blockComment => "BlockComment"

end CommentMode

end PredictiveFrontend

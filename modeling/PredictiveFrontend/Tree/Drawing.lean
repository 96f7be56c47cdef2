import PredictiveFrontend.Tree.Basic

/-!
# Drawings of parse trees

A tree is drawn with one node per line. A connector in front of a node tells whether it is the last
child of its parent, and below a node that is not the last one a bar runs on to the next child. A
leaf is labelled with its symbol and its lexeme, a long lexeme cut short.
-/

namespace PredictiveFrontend

namespace ParseTree

/-- How many characters of a lexeme are shown. -/
def shownLexeme : Nat := 30

/-- The text, cut short and marked by points if it is too long. -/
def abbreviated (text : String) : String :=
  let cs := text.toList
  if shownLexeme < cs.length then String.ofList (cs.take shownLexeme) ++ "..." else text

/-- The label of the root. -/
def label : ParseTree → String
  | leaf symbol (some token) => symbol ++ ": " ++ abbreviated token.lexeme
  | t => t.symbol

/-- The connector in front of a node. -/
def connector (isLast : Bool) : String :=
  if isLast then "└─ " else "├─ "

/-- What is drawn below a connector. -/
def continuation (isLast : Bool) : String :=
  if isLast then "  " else "│ "

mutual

/-- The lines of a tree behind a margin. -/
def drawnLines (margin : String) (isLast : Bool) : ParseTree → List String
  | node symbol rule children =>
    (margin ++ connector isLast ++ label (node symbol rule children)) ::
      drawnLinesAll (margin ++ continuation isLast) children
  | t => [margin ++ connector isLast ++ label t]

/-- The lines of the children of a node behind a margin. -/
def drawnLinesAll (margin : String) : List ParseTree → List String
  | [] => []
  | t :: rest => drawnLines margin rest.isEmpty t ++ drawnLinesAll margin rest

end

/-- The drawing of a tree. -/
def drawing (t : ParseTree) : String :=
  String.join ((drawnLines "" true t).map (· ++ "\n"))

end ParseTree

end PredictiveFrontend

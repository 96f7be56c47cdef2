import PredictiveFrontend.Grammar.Alphabet
import PredictiveFrontend.Grammar.Error
import PredictiveFrontend.Text.Blank

/-!
# Production lines

A production is written on one line: a name, `->`, and alternatives separated by `|`, each of them
one or more names. A line is first cut into arrows, pipes and names, a name being as long as
possible; then the arrow, the left side and the alternatives are checked in this order. Blank lines
and lines that start with `#` hold no production.
-/

namespace PredictiveFrontend

/-- A piece of a production line. -/
inductive LineToken where
  | arrow
  | pipe
  | name (name : String)
  /-- A line feed, which no line may hold. -/
  | lineFeed
  deriving DecidableEq, Repr

namespace LineToken

/-- Whether a character can be part of a name. -/
def isNameCharacter (c : Char) : Bool :=
  c ∉ [' ', '\t', '\r', '\x0c', '\n', '|']

/-- A maximal run of name characters: the arrow, or a name. -/
def ofRun (run : List Char) : LineToken :=
  if run = ['-', '>'] then .arrow else .name (String.ofList run)

/-- Cut a line into its pieces; blanks between them are skipped. -/
def ofLine (text : List Char) : List LineToken :=
  match text with
  | [] => []
  | c :: rest =>
    if isNameCharacter c then
      ofRun (c :: rest.takeWhile isNameCharacter) :: ofLine (rest.dropWhile isNameCharacter)
    else if c = '|' then .pipe :: ofLine rest
    else if c = '\n' then .lineFeed :: ofLine rest
    else ofLine rest
termination_by text.length
decreasing_by
  · have := (@List.dropWhile_sublist _ rest isNameCharacter).length_le
    simp only [List.length_cons]; omega
  all_goals simp

/-- A piece as it is written. -/
def text : LineToken → String
  | .arrow => "->"
  | .pipe => "|"
  | .name n => n
  | .lineFeed => "\n"

end LineToken

/-- A production: a left side and its alternatives, by name. -/
structure Production where
  /-- The number of the line that it stands on. -/
  line : Nat
  /-- The left side. -/
  lhs : String
  /-- The alternatives in order. -/
  alternatives : List (List String)
  deriving DecidableEq, Repr, Inhabited

namespace Production

/-- The names between the pipes. -/
def splitAtPipes : List LineToken → List (List String)
  | [] => [[]]
  | .pipe :: rest => [] :: splitAtPipes rest
  | token :: rest =>
    match splitAtPipes rest with
    | [] => [[token.text]]
    | first :: others => (token.text :: first) :: others

/-- The alternatives behind an arrow; each has a name at least. -/
def alternativesOf (line : Nat) (tokens : List LineToken) :
    Except GrammarError (List (List String)) :=
  let alternatives := splitAtPipes tokens
  if alternatives.any List.isEmpty then .error (.emptyAlternative line) else .ok alternatives

/-- The left side in front of an arrow: a single name. -/
def leftSideOf (line : Nat) : List LineToken → Except GrammarError String
  | [] => .error (.missingLeftSide line)
  | [.name name] => .ok name
  | tokens => .error (.multipleLeftSides line (tokens.map LineToken.text))

/-- Read the pieces of a line as a production. -/
def ofTokens (line : Nat) (tokens : List LineToken) : Except GrammarError Production := do
  if .lineFeed ∈ tokens then throw (.unrecognized line LineToken.lineFeed.text)
  if tokens.count .arrow = 0 then throw (.missingArrow line)
  if 1 < tokens.count .arrow then throw (.unexpectedArrow line)
  let lhs ← leftSideOf line (tokens.takeWhile (· ≠ .arrow))
  let alternatives ← alternativesOf line (tokens.dropWhile (· ≠ .arrow)).tail
  return ⟨line, lhs, alternatives⟩

/-- Read a line as a production. -/
def ofLine (line : Nat) (text : List Char) : Except GrammarError Production :=
  ofTokens line (LineToken.ofLine text)

/-- Whether a line of a grammar text holds no production: it is blank or a remark. -/
def isIgnorable (text : List Char) : Bool :=
  match Text.trim text with
  | [] => true
  | c :: _ => c == '#'

/-- All names on the right side, in order. -/
def rightNames (p : Production) : List String :=
  p.alternatives.flatten

/-- All names, in order. -/
def names (p : Production) : List String :=
  p.lhs :: p.rightNames

/-- The nonterminals used on the right side, in order. -/
def references (p : Production) : List String :=
  p.rightNames.filter fun name => SymbolKind.ofName name == .nonterminal

/-- A production uses no reserved name, and its left side is a nonterminal. -/
def check (p : Production) : Except GrammarError Production :=
  if SymbolName.isReserved p.lhs then .error (.reservedName p.line p.lhs)
  else if SymbolKind.ofName p.lhs ≠ .nonterminal then .error (.notNonterminal p.line p.lhs)
  else match p.rightNames.find? SymbolName.isReserved with
    | some name => .error (.reservedName p.line name)
    | none => .ok p

end Production

end PredictiveFrontend

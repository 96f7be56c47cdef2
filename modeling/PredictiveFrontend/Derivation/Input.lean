import PredictiveFrontend.Derivation.Error
import PredictiveFrontend.Grammar.Compiled

/-!
# From tokens to terminals

A token stands for the terminal that its lexeme names. A name or a literal that the grammar does
not spell out stands for a generic terminal, one for each class of such tokens. The input of a
parse is the terminals of its tokens in order, with the end of input behind them.
-/

namespace PredictiveFrontend

/-- The names of the terminals that stand for whole classes of tokens. -/
structure GenericTerminals where
  identifier : String := "id"
  intLiteral : String := "intConst"
  doubleLiteral : String := "doubleConst"
  charLiteral : String := "charConst"
  deriving DecidableEq, Repr, Inhabited

namespace GenericTerminals

/-- The generic terminal of a kind of token. -/
def nameFor? (generic : GenericTerminals) : TokenKind → Option String
  | .identifier => some generic.identifier
  | .intLiteral => some generic.intLiteral
  | .doubleLiteral => some generic.doubleLiteral
  | .charLiteral => some generic.charLiteral
  | _ => none

end GenericTerminals

namespace CompiledGrammar

/-- The terminal that a lexeme names, other than the empty word and the end of input. -/
def spelledTerminal? (g : CompiledGrammar) (lexeme : String) : Option Code :=
  (g.alphabet.code? lexeme).filter fun c =>
    c != Code.epsilon && c != Code.endOfInput && g.alphabet.isTerminal c

/-- The terminal of the class of a token. -/
def genericTerminal? (g : CompiledGrammar) (generic : GenericTerminals) (kind : TokenKind) :
    Option Code :=
  ((generic.nameFor? kind).bind g.alphabet.code?).filter g.alphabet.isTerminal

/-- The terminal that a token stands for. -/
def terminalOf (g : CompiledGrammar) (generic : GenericTerminals) (t : Token) :
    Except ParseError Code :=
  match (g.spelledTerminal? t.lexeme).or (g.genericTerminal? generic t.kind) with
  | some c => .ok c
  | none => .error (.unmapped t.lexeme t.kind t.line t.column)

/-- The terminals of tokens and the end of input. Of several tokens that stand for no terminal the
last one is reported. -/
def inputOf (g : CompiledGrammar) (generic : GenericTerminals) :
    List Token → Except ParseError (List Code)
  | [] => .ok [Code.endOfInput]
  | t :: rest => do
    let codes ← inputOf g generic rest
    return (← g.terminalOf generic t) :: codes

/-- Put the terminal of a token, with the index of the token, on a stack. -/
def pushTerminal (g : CompiledGrammar) (generic : GenericTerminals) (entry : Token × Nat)
    (stack : List (Code × Option Nat)) : Except ParseError (List (Code × Option Nat)) :=
  return (← g.terminalOf generic entry.1, some entry.2) :: stack

/-- The input with the index of its token behind each terminal, none behind the end of input: what
is read first is on top, and the end of input is at the bottom. -/
def inputStack (g : CompiledGrammar) (generic : GenericTerminals) (tokens : List Token) :
    Except ParseError (List (Code × Option Nat)) :=
  tokens.zipIdx.foldrM (g.pushTerminal generic) [(Code.endOfInput, none)]

end CompiledGrammar

end PredictiveFrontend

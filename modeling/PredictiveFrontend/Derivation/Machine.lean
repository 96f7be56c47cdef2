import PredictiveFrontend.Derivation.Basic
import PredictiveFrontend.Derivation.Input

/-!
# The parsing machine

The machine holds a stack of symbols that are still to be matched and the terminals that are still
to be read. A terminal on top of the stack must be the next one read; a nonterminal on top is
replaced by the right side of the rule predicted for it and the next terminal. In lenient mode a
parse is accepted as soon as the input ends below a nonterminal; in strict mode the end of input is
looked up like any terminal and the stack has to empty.

A machine that ends at all takes no more moves than `moveLimit` says: between two matches the
lookahead stays the same, so a nonterminal that turns up again inside its own expansion would turn
up forever.
-/

namespace PredictiveFrontend

/-- How tokens are parsed. -/
structure ParseOptions where
  /-- Whether the end of input is looked up like any terminal. -/
  strict : Bool := false
  /-- The terminals that stand for classes of tokens. -/
  generic : GenericTerminals := {}
  deriving DecidableEq, Repr, Inhabited

namespace Machine

/-- What the machine holds between two moves. -/
structure State where
  /-- The symbols still to be matched, the next one first. -/
  stack : List Code
  /-- The terminals still to be read. -/
  input : List Code
  /-- The rules applied so far, the last one first. -/
  applied : List Rule
  /-- How many tokens were matched. -/
  consumed : Nat
  deriving DecidableEq, Repr

/-- The machine in front of an input. -/
def State.initial (g : CompiledGrammar) (input : List Code) : State :=
  ⟨[g.start, Code.endOfInput], input, [], 0⟩

/-- What one look at the stack and the input leads to. -/
inductive Move where
  /-- The machine goes on. -/
  | next (s : State)
  /-- The input is accepted. -/
  | accept
  /-- The next terminal is not one of the expected ones. -/
  | reject (expected : List String)

/-- One move of the machine. -/
def move (g : CompiledGrammar) (strict : Bool) (s : State) : Move :=
  match s.stack, s.input with
  | top :: stack, lookahead :: input =>
    if g.alphabet.isTerminal top then
      if top = lookahead then
        .next ⟨stack, input, s.applied,
          if top = Code.endOfInput then s.consumed else s.consumed + 1⟩
      else .reject [g.name top]
    else if lookahead = Code.endOfInput ∧ strict = false then .accept
    else match g.predicted? top lookahead with
      | some r => .next ⟨r.expansion ++ stack, lookahead :: input, r :: s.applied, s.consumed⟩
      | none => .reject (g.expectedNames top)
  | _, _ => .accept

/-- How a run ends. -/
inductive Outcome where
  /-- The input is accepted in this state. -/
  | accepted (s : State)
  /-- The next terminal is not one of the expected ones. -/
  | rejected (s : State) (expected : List String)
  /-- The machine was still going. -/
  | unfinished (s : State)

/-- Let the machine make at most so many moves. -/
def run (g : CompiledGrammar) (strict : Bool) : Nat → State → Outcome
  | 0, s => .unfinished s
  | n + 1, s =>
    match move g strict s with
    | .next s' => run g strict n s'
    | .accept => .accepted s
    | .reject expected => .rejected s expected

/-- The length of the longest right side. -/
def widestRule (g : CompiledGrammar) : Nat :=
  (g.rules.map fun r => r.rhs.length).foldl max 0

/-- A bound on the moves of a machine that ends: with every terminal read, each symbol of the stack
expands into at most a tree in which no nonterminal stands below itself. -/
def moveLimit (g : CompiledGrammar) (input : List Code) : Nat :=
  let width := widestRule g + 1
  let depth := g.alphabet.size + 1
  let height := 2 + (input.length + 1) * depth * width
  (input.length + 1) * height * (Nat.pow width depth + 1) + 1

end Machine

/-- The fault at the token after so many matched ones, or behind the last token. -/
def SyntaxFault.after (tokens : List Token) (consumed : Nat) (expected : List String) :
    SyntaxFault :=
  match tokens[consumed]? with
  | some t => ⟨some t.lexeme, t.line, t.column, expected⟩
  | none =>
    match tokens.getLast? with
    | some t => ⟨none, t.line, t.endIndex + 1, expected⟩
    | none => ⟨none, 1, 1, expected⟩

namespace CompiledGrammar

/-- Parse tokens into a leftmost derivation; auxiliary tokens are passed over. -/
def parse (g : CompiledGrammar) (options : ParseOptions) (tokens : List Token) :
    Except ParseError Derivation := do
  let significant := Token.significant tokens
  let input ← g.inputOf options.generic significant
  match Machine.run g options.strict (Machine.moveLimit g input) (.initial g input) with
  | .accepted s =>
    return ⟨s.applied.reverse.map (DerivationStep.ofRule g.alphabet), s.consumed⟩
  | .rejected s expected => throw (.unexpected (.after significant s.consumed expected))
  | .unfinished _ => throw .unbounded

end CompiledGrammar

end PredictiveFrontend

import PredictiveFrontend.Derivation.Basic
import PredictiveFrontend.Tree.Basic

/-!
# From derivations to trees

The rules of a leftmost derivation are applied once more, from the start symbol, each to the
leftmost nonterminal that is left, and every terminal passed on the way takes the next token. Where
the rules end the tree stops growing: what is left of it has neither rules nor tokens. A rule that
does not fit the nonterminal, or rules without a nonterminal to apply them to, are errors; the
tokens never are.
-/

namespace PredictiveFrontend

/-- Why a list of rules is not a leftmost derivation. -/
inductive TreeError where
  /-- A rule for a nonterminal that is not the leftmost one. -/
  | mismatch (step : Nat) (expected found : String)
  /-- A number without a rule. -/
  | unknownRule (step rule : Nat)
  /-- Rules behind the one that completed the tree. -/
  | unusedSteps (extra : Nat)
  deriving DecidableEq, Repr

namespace TreeError

/-- The text of an error. -/
def message : TreeError → String
  | .mismatch step expected found =>
    s!"derivation step {step} expands {found} but the leftmost nonterminal is {expected}"
  | .unknownRule step rule => s!"derivation step {step} refers to unknown rule {rule}"
  | .unusedSteps extra => s!"derivation has {extra} more steps than the tree can use"

end TreeError

namespace ParseTree

/-- Trees grown from symbols, and the steps and tokens left for the symbols behind them. -/
structure Growth (available : Nat) where
  trees : List ParseTree
  /-- The numbers of the rules not yet applied, each with its position. -/
  steps : List (Nat × Nat)
  tokens : List Token
  /-- Growing uses steps up. -/
  steps_le : steps.length ≤ available

/-- The rule of a step, which must be one for the given nonterminal. -/
def ruleOfStep (g : CompiledGrammar) (nonterminal : Code) (step : Nat × Nat) :
    Except TreeError Rule :=
  match g.rule? step.1 with
  | none => .error (.unknownRule step.2 step.1)
  | some r =>
    if r.lhs = nonterminal then .ok r
    else .error (.mismatch step.2 (g.name nonterminal) (g.name r.lhs))

/-- Grow a tree from every symbol of a list, from left to right. Where the steps end no token is
left either. -/
def grow (g : CompiledGrammar) (symbols : List Code) (steps : List (Nat × Nat))
    (tokens : List Token) : Except TreeError (Growth steps.length) :=
  match symbols with
  | [] => .ok ⟨[], steps, tokens, Nat.le_refl _⟩
  | c :: others =>
    if g.alphabet.isTerminal c then do
      let rest ← grow g others steps tokens.tail
      return ⟨leaf (g.name c) tokens.head? :: rest.trees, rest.steps, rest.tokens, rest.steps_le⟩
    else
      match steps with
      | [] => do
        let rest ← grow g others [] []
        return ⟨unexpanded (g.name c) :: rest.trees, rest.steps, rest.tokens, rest.steps_le⟩
      | step :: later => do
        let r ← ruleOfStep g c step
        let below ← grow g (if r.isEpsilon then [] else r.rhs) later tokens
        let children := if r.isEpsilon then [emptyWord] else below.trees
        let rest ← grow g others below.steps below.tokens
        return ⟨node (g.name c) r.number children :: rest.trees, rest.steps, rest.tokens,
          Nat.le_succ_of_le (Nat.le_trans rest.steps_le below.steps_le)⟩
termination_by (steps.length, symbols.length)
decreasing_by
  · exact Prod.Lex.right _ (by simp)
  · exact Prod.Lex.right _ (by simp)
  · exact Prod.Lex.left _ _ (by simp)
  · exact Prod.Lex.left _ _ (Nat.lt_succ_of_le below.steps_le)

/-- The tree of rules given by number, with the significant ones of the tokens at its leaves. -/
def ofRules (g : CompiledGrammar) (rules : List Nat) (tokens : List Token) :
    Except TreeError ParseTree := do
  let growth ← grow g [g.start] rules.zipIdx (Token.significant tokens)
  match growth.steps with
  | [] => return growth.trees.headD emptyWord
  | extra => throw (.unusedSteps extra.length)

/-- The tree of a derivation. -/
def ofDerivation (g : CompiledGrammar) (d : Derivation) (tokens : List Token) :
    Except TreeError ParseTree :=
  ofRules g d.ruleNumbers tokens

end ParseTree

end PredictiveFrontend

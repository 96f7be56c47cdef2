import PredictiveFrontend.Grammar.Compiled

/-!
# Derivations

A leftmost derivation is recorded as the rules applied, by number and with the names of their
symbols, together with the number of tokens that the parse went over.
-/

namespace PredictiveFrontend

/-- One application of a rule. -/
structure DerivationStep where
  /-- The number of the rule. -/
  rule : Nat
  /-- The name of the left side. -/
  lhs : String
  /-- The names of the right side. -/
  rhs : List String
  deriving DecidableEq, Repr, Inhabited

namespace DerivationStep

/-- The application of a rule. -/
def ofRule (a : Alphabet) (r : Rule) : DerivationStep :=
  ⟨r.number, a.name r.lhs, r.rhs.map a.name⟩

/-- The rule with its number in front. -/
def render (s : DerivationStep) : String :=
  s!"{s.rule}: {s.lhs} -> " ++ String.intercalate " " s.rhs

end DerivationStep

/-- The rules applied by a parse, from the first to the last. -/
structure Derivation where
  /-- The applications in order. -/
  steps : List DerivationStep
  /-- How many tokens were matched. -/
  tokensConsumed : Nat
  deriving DecidableEq, Repr, Inhabited

namespace Derivation

/-- The numbers of the applied rules. -/
def ruleNumbers (d : Derivation) : List Nat :=
  d.steps.map DerivationStep.rule

/-- The steps, one per line. -/
def render (d : Derivation) : String :=
  String.intercalate "\n" (d.steps.map DerivationStep.render)

end Derivation

end PredictiveFrontend

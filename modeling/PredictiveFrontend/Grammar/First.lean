import PredictiveFrontend.Grammar.Basic
import PredictiveFrontend.Grammar.Saturation

/-!
# FIRST sets

The FIRST set of a symbol holds the terminals with which the words derived from it begin, and the
marker of the empty word if that word is derived. A terminal begins with itself. The sets of the
nonterminals grow from nothing, rule by rule and round by round, until a round changes none.
-/

namespace PredictiveFrontend

namespace First

variable {size : Nat}

/-- The terminals with which a sequence begins, given the sets of its symbols; with the marker of
the empty word if every symbol can vanish. -/
def ofSequence (first : SetFamily size) : List Code → CodeSet size
  | [] => CodeSet.singleton Code.epsilon
  | c :: rest =>
    if Code.epsilon ∈ first.get c then (first.get c).erase Code.epsilon ∪ ofSequence first rest
    else first.get c

/-- Only terminals begin with something at first: with themselves. -/
def initial (a : Alphabet) : SetFamily a.size :=
  SetFamily.ofFn fun c => if a.isTerminal c then CodeSet.singleton c else ∅

/-- The set of a left side takes in what the right side begins with. -/
def applyRule (first : SetFamily size) (r : Rule) : SetFamily size :=
  first.add r.lhs (ofSequence first r.rhs)

/-- Every rule once, in order. -/
def round (rules : List Rule) (first : SetFamily size) : SetFamily size :=
  rules.foldl applyRule first

theorem round_lowersRank (rules : List Rule) :
    LowersRank SetFamily.rank (@round size rules) :=
  LowersRank.foldl (fun _ _ => SetFamily.add_eq_or_rank_lt _ _ _) rules

end First

/-- The FIRST sets of a grammar. -/
def Grammar.first (g : Grammar) : SetFamily g.alphabet.size :=
  saturate SetFamily.rank (First.round g.rules) (First.round_lowersRank g.rules)
    (First.initial g.alphabet)

end PredictiveFrontend

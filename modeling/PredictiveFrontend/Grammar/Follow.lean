import PredictiveFrontend.Grammar.First

/-!
# FOLLOW sets

The FOLLOW set of a nonterminal holds the terminals that can stand behind it, and the end of input
if it can stand last. At every occurrence of a nonterminal in a rule it takes in what the rest of
the right side begins with, and, if that rest can vanish, the set of the left side: it inherits.

Two strategies compute the sets. The first repeats all occurrences until nothing changes. The
second visits every nonterminal once and, where it inherits, first visits the left side on behalf
of the visitor, each pair of visitor and visited at most once; on cyclic inheritance it can miss
terminals that arrive late.
-/

namespace PredictiveFrontend

/-- How FOLLOW sets are computed. -/
inductive FollowStrategy where
  /-- Repeat until nothing changes. -/
  | fixedPoint
  /-- Visit every pair of visitor and visited at most once. -/
  | guardedRecursion
  deriving DecidableEq, Repr, Inhabited

/-- A place in a right side. -/
structure Occurrence where
  /-- The symbol that stands there. -/
  symbol : Code
  /-- What stands behind it. -/
  rest : List Code
  /-- The left side of the rule. -/
  owner : Code
  deriving DecidableEq, Repr

namespace Occurrence

/-- The places of a right side, from left to right. -/
def ofSequence (owner : Code) : List Code → List Occurrence
  | [] => []
  | c :: rest => ⟨c, rest, owner⟩ :: ofSequence owner rest

end Occurrence

/-- The occurrences of nonterminals, rule by rule and from left to right. -/
def Grammar.occurrences (g : Grammar) : List Occurrence :=
  (g.rules.flatMap fun r => Occurrence.ofSequence r.lhs r.rhs).filter
    fun o => g.alphabet.isNonterminal o.symbol

namespace Follow

variable {size : Nat}

/-- What the rest behind an occurrence begins with. -/
def direct (first : SetFamily size) (o : Occurrence) : CodeSet size :=
  (First.ofSequence first o.rest).erase Code.epsilon

/-- Whether the rest behind an occurrence can vanish. -/
def inherits (first : SetFamily size) (o : Occurrence) : Bool :=
  Code.epsilon ∈ First.ofSequence first o.rest

/-- At first only the start symbol can stand last. -/
def initial (start : Code) : SetFamily size :=
  (∅ : SetFamily size).add start (CodeSet.singleton Code.endOfInput)

/-! ### Repeating all occurrences -/

/-- An occurrence takes in what stands behind it. -/
def applyOccurrence (first follow : SetFamily size) (o : Occurrence) : SetFamily size :=
  follow.add o.symbol
    (if inherits first o then direct first o ∪ follow.get o.owner else direct first o)

/-- Every occurrence once, in order. -/
def round (first : SetFamily size) (occurrences : List Occurrence) (follow : SetFamily size) :
    SetFamily size :=
  occurrences.foldl (applyOccurrence first) follow

theorem round_lowersRank (first : SetFamily size) (occurrences : List Occurrence) :
    LowersRank SetFamily.rank (round first occurrences) :=
  LowersRank.foldl (fun _ _ => SetFamily.add_eq_or_rank_lt _ _ _) occurrences

/-! ### Guarded visits -/

/-- What is left to do while visiting nonterminals. -/
inductive Task (size : Nat) where
  /-- Take terminals into the set of a symbol. -/
  | take (symbol : Code) (terminals : CodeSet size)
  /-- Take the set of the owner, as it is by then, into that of a symbol. -/
  | inherit (symbol owner : Code)
  /-- Visit a symbol on behalf of the visitor. -/
  | visit (visitor symbol : Code)

/-- What a visit has to do at one occurrence of the visited symbol. -/
def tasksAt (first : SetFamily size) (o : Occurrence) : List (Task size) :=
  .take o.symbol (direct first o) ::
    if inherits first o then [.visit o.symbol o.owner, .inherit o.symbol o.owner] else []

/-- What a visit has to do at all occurrences of the visited symbol. -/
def tasksOf (first : SetFamily size) (occurrences : List Occurrence) (symbol : Code) :
    List (Task size) :=
  (occurrences.filter (·.symbol == symbol)).flatMap (tasksAt first)

/-- Do the tasks in order. A visit is done at once, ahead of the tasks behind it, unless the pair
of visitor and visited was seen before; `seen` holds for every visitor the symbols it visited. -/
def perform (first : SetFamily size) (occurrences : List Occurrence)
    (tasks : List (Task size)) (seen follow : SetFamily size) : SetFamily size :=
  match tasks with
  | [] => follow
  | .take symbol terminals :: rest =>
    perform first occurrences rest seen (follow.add symbol terminals)
  | .inherit symbol owner :: rest =>
    perform first occurrences rest seen (follow.add symbol (follow.get owner))
  | .visit visitor symbol :: rest =>
    let seen' := seen.add visitor (CodeSet.singleton symbol)
    if seen' = seen then perform first occurrences rest seen follow
    else perform first occurrences (tasksOf first occurrences symbol ++ rest) seen' follow
termination_by (seen.rank, tasks.length)
decreasing_by
  all_goals first
    | exact Prod.Lex.right _ (by simp)
    | exact Prod.Lex.left _ _ ((SetFamily.add_eq_or_rank_lt _ _ _).resolve_left ‹_›)

end Follow

/-- The FOLLOW sets of a grammar by repetition. -/
def Grammar.followFixedPoint (g : Grammar) (first : SetFamily g.alphabet.size) :
    SetFamily g.alphabet.size :=
  saturate SetFamily.rank (Follow.round first g.occurrences)
    (Follow.round_lowersRank first g.occurrences) (Follow.initial g.start)

/-- The FOLLOW sets of a grammar by guarded visits of all nonterminals in order. -/
def Grammar.followGuarded (g : Grammar) (first : SetFamily g.alphabet.size) :
    SetFamily g.alphabet.size :=
  Follow.perform first g.occurrences
    (g.alphabet.nonterminals.flatMap (Follow.tasksOf first g.occurrences)) ∅
    (Follow.initial g.start)

/-- The FOLLOW sets of a grammar. -/
def Grammar.follow (g : Grammar) (strategy : FollowStrategy)
    (first : SetFamily g.alphabet.size) : SetFamily g.alphabet.size :=
  match strategy with
  | .fixedPoint => g.followFixedPoint first
  | .guardedRecursion => g.followGuarded first

end PredictiveFrontend

import PredictiveFrontend.Grammar.Follow

/-!
# The prediction table

A rule is predicted by the terminals with which its right side begins, and, if the right side can
vanish, by those that follow its left side. Each rule in turn claims its entries of the table. A
second rule that claims an entry is either an error or takes the entry over; then the overwrite is
logged.
-/

namespace PredictiveFrontend

/-- What happens when two rules claim one entry of the table. -/
inductive ConflictPolicy where
  /-- The grammar is refused. -/
  | reject
  /-- The later rule takes the entry over. -/
  | lastWriteWins
  deriving DecidableEq, Repr, Inhabited

/-- The rule predicted for a nonterminal and a lookahead. -/
structure TableEntry where
  nonterminal : Code
  lookahead : Code
  /-- The number of the rule. -/
  rule : Nat
  deriving DecidableEq, Repr

namespace TableEntry

/-- Whether two entries are for the same nonterminal and lookahead. -/
def sameKey (e f : TableEntry) : Bool :=
  e.nonterminal == f.nonterminal && e.lookahead == f.lookahead

/-- Whether an entry comes before another in the table. -/
def before (e f : TableEntry) : Bool :=
  e.nonterminal < f.nonterminal ||
    (e.nonterminal == f.nonterminal && decide (e.lookahead < f.lookahead))

end TableEntry

/-- An entry of the table that a later rule took over. -/
structure Overwrite where
  nonterminal : Code
  lookahead : Code
  /-- The rule that held the entry. -/
  existing : Nat
  /-- The rule that took it. -/
  replacement : Nat
  deriving DecidableEq, Repr

/-- Predicted rules in the order of nonterminal and lookahead, and the log of overwrites. -/
structure PredictionTable where
  /-- The entries, in order, at most one for a nonterminal and a lookahead. -/
  entries : List TableEntry
  /-- The overwrites in the order in which they happened. -/
  overwrites : List Overwrite
  deriving DecidableEq, Repr

namespace PredictionTable

/-- The table without entries. -/
def empty : PredictionTable := ⟨[], []⟩

instance : Inhabited PredictionTable := ⟨empty⟩

/-- The number of the rule predicted for a nonterminal and a lookahead. -/
def get? (t : PredictionTable) (nonterminal lookahead : Code) : Option Nat :=
  (t.entries.find? fun e => e.nonterminal == nonterminal && e.lookahead == lookahead).map (·.rule)

/-- The lookaheads for which a nonterminal has an entry, in order. -/
def lookaheads (t : PredictionTable) (nonterminal : Code) : List Code :=
  (t.entries.filter (·.nonterminal == nonterminal)).map (·.lookahead)

/-- The entries with one more, which takes the place of an entry with the same key. -/
def insertEntry (e : TableEntry) : List TableEntry → List TableEntry
  | [] => [e]
  | f :: rest =>
    if e.sameKey f then e :: rest
    else if e.before f then e :: f :: rest
    else f :: insertEntry e rest

/-- The overwrite that an entry would cause. -/
def overwriteBy? (t : PredictionTable) (e : TableEntry) : Option Overwrite :=
  (t.get? e.nonterminal e.lookahead).bind fun existing =>
    if existing = e.rule then none else some ⟨e.nonterminal, e.lookahead, existing, e.rule⟩

/-- The table with one more entry; an overwrite is logged. -/
def put (t : PredictionTable) (e : TableEntry) : PredictionTable :=
  ⟨insertEntry e t.entries, t.overwrites ++ (t.overwriteBy? e).toList⟩

/-- The table with more entries, or the first overwrite that they would cause. -/
def putAllOrConflict (t : PredictionTable) : List TableEntry → Except Overwrite PredictionTable
  | [] => .ok t
  | e :: rest =>
    match t.overwriteBy? e with
    | some overwrite => .error overwrite
    | none => (t.put e).putAllOrConflict rest

end PredictionTable

namespace Rule

variable {size : Nat}

/-- The terminals that predict a rule. -/
def predict (first follow : SetFamily size) (r : Rule) : CodeSet size :=
  let start := First.ofSequence first r.rhs
  if Code.epsilon ∈ start then start.erase Code.epsilon ∪ follow.get r.lhs else start

/-- The entries that a rule claims: those its right side begins with, then those that follow its
left side if the right side can vanish. -/
def claims (first follow : SetFamily size) (r : Rule) : List TableEntry :=
  let start := First.ofSequence first r.rhs
  let lookaheads := (start.erase Code.epsilon).toList ++
    if Code.epsilon ∈ start then (follow.get r.lhs).toList else []
  lookaheads.map fun lookahead => ⟨r.lhs, lookahead, r.number⟩

end Rule

/-- The entries that the rules of a grammar claim, in order. -/
def Grammar.claims (g : Grammar) (first follow : SetFamily g.alphabet.size) : List TableEntry :=
  g.rules.flatMap (Rule.claims first follow)

/-- The prediction table of a grammar under a policy. -/
def Grammar.predictionTable (g : Grammar) (first follow : SetFamily g.alphabet.size) :
    ConflictPolicy → Except GrammarError PredictionTable
  | .lastWriteWins => .ok ((g.claims first follow).foldl PredictionTable.put .empty)
  | .reject =>
    match PredictionTable.empty.putAllOrConflict (g.claims first follow) with
    | .ok table => .ok table
    | .error o => .error (.conflict (g.alphabet.name o.nonterminal) (g.alphabet.name o.lookahead)
        o.existing o.replacement)

end PredictiveFrontend

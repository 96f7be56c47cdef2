import PredictiveFrontend.Grammar.Prediction

/-!
# Compiled grammars

A grammar together with its FIRST and FOLLOW sets and its prediction table: all that a parser needs
to know. A grammar text compiles if it can be read and if no two rules claim the same entry of the
table, or if such claims are allowed.
-/

namespace PredictiveFrontend

/-- How a grammar is compiled. -/
structure CompileOptions where
  /-- What happens when two rules claim one entry. -/
  conflictPolicy : ConflictPolicy := .reject
  /-- How FOLLOW sets are computed. -/
  followStrategy : FollowStrategy := .fixedPoint
  deriving DecidableEq, Repr, Inhabited

/-- A grammar with its sets and its prediction table. -/
structure CompiledGrammar extends Grammar where
  /-- The FIRST sets of all symbols. -/
  first : SetFamily alphabet.size
  /-- The FOLLOW sets of all symbols; those of terminals are empty. -/
  follow : SetFamily alphabet.size
  /-- The rule for every nonterminal and lookahead. -/
  table : PredictionTable

namespace CompiledGrammar

/-- Compute the sets and the table of a grammar. -/
def ofGrammar (g : Grammar) (options : CompileOptions) : Except GrammarError CompiledGrammar :=
  let first := g.first
  let follow := g.follow options.followStrategy first
  (g.predictionTable first follow options.conflictPolicy).map fun table =>
    ⟨g, first, follow, table⟩

/-- Read a grammar text and compute its sets and its table. -/
def ofText (text : String) (options : CompileOptions) : Except GrammarError CompiledGrammar := do
  ofGrammar (← Grammar.ofText text) options

/-- The name of a symbol. -/
def name (g : CompiledGrammar) (c : Code) : String :=
  g.alphabet.name c

/-- The terminals with which a sequence of symbols begins. -/
def firstOfSequence (g : CompiledGrammar) (symbols : List Code) : CodeSet g.alphabet.size :=
  First.ofSequence g.first symbols

/-- The rule predicted for a nonterminal and a lookahead. -/
def predicted? (g : CompiledGrammar) (nonterminal lookahead : Code) : Option Rule :=
  (g.table.get? nonterminal lookahead).bind g.rule?

/-- The names of the terminals for which a nonterminal has a rule, sorted. -/
def expectedNames (g : CompiledGrammar) (nonterminal : Code) : List String :=
  ((g.table.lookaheads nonterminal).map g.name).mergeSort (· ≤ ·)

/-- A set of symbols by name. -/
def renderSet (g : CompiledGrammar) (s : CodeSet g.alphabet.size) : String :=
  "\x7b" ++ String.intercalate ", " (s.toList.map g.name) ++ "\x7d"

/-- The sets of all nonterminals under a heading, one per line. -/
def renderFamily (g : CompiledGrammar) (heading : String) (f : SetFamily g.alphabet.size) :
    String :=
  String.join (g.alphabet.nonterminals.map fun c =>
    heading ++ "(" ++ g.name c ++ ") = " ++ g.renderSet (f.get c) ++ "\n")

/-- The FIRST sets and then the FOLLOW sets of all nonterminals. -/
def renderSets (g : CompiledGrammar) : String :=
  g.renderFamily "FIRST" g.first ++ g.renderFamily "FOLLOW" g.follow

/-- The entries of the table in order, one per line. -/
def renderTable (g : CompiledGrammar) : String :=
  String.join (g.table.entries.map fun e =>
    "(" ++ g.name e.nonterminal ++ ", " ++ g.name e.lookahead ++ ") => " ++
      ((g.rule? e.rule).map (·.render g.alphabet)).getD "" ++ "\n")

end CompiledGrammar

end PredictiveFrontend

import PredictiveFrontend.Grammar.Production
import PredictiveFrontend.Text.Lines

/-!
# Grammars

A grammar is an alphabet, the rules over it in order, and a start symbol, the left side of the
first rule. A grammar text gives one production per line; every alternative becomes a rule. Errors
of single lines are reported first, in the order of the lines; then a text without productions;
then the first use of a nonterminal that has none.
-/

namespace PredictiveFrontend

/-- A rule: a nonterminal and the symbols it derives. -/
structure Rule where
  /-- The position of the rule in its grammar. -/
  number : Nat
  /-- The left side. -/
  lhs : Code
  /-- The right side; markers of the empty word stand for nothing. -/
  rhs : List Code
  deriving DecidableEq, Repr, Inhabited

namespace Rule

/-- Whether the right side is written with markers of the empty word alone. -/
def isEpsilon (r : Rule) : Bool :=
  r.rhs.all (· == Code.epsilon)

/-- The symbols of the right side, without markers of the empty word. -/
def expansion (r : Rule) : List Code :=
  r.rhs.filter (· != Code.epsilon)

/-- The rule as a production line. -/
def production (r : Rule) (a : Alphabet) : String :=
  a.name r.lhs ++ " -> " ++ String.intercalate " " (r.rhs.map a.name)

/-- The rule as a production line, with its number. -/
def render (r : Rule) (a : Alphabet) : String :=
  s!"{r.number}: " ++ r.production a

end Rule

/-- A grammar: its symbols, its rules and its start symbol. -/
structure Grammar where
  /-- The symbols. -/
  alphabet : Alphabet
  /-- The rules in order of their numbers. -/
  rules : List Rule
  /-- The start symbol. -/
  start : Code
  deriving DecidableEq, Repr, Inhabited

namespace Grammar

/-- The productions of numbered lines, in order, up to the first line that is none. -/
def readProductions : List (Nat × List Char) → Except GrammarError (List Production)
  | [] => .ok []
  | (line, text) :: rest =>
    if Production.isIgnorable text then readProductions rest
    else do
      let p ← (← Production.ofLine line text).check
      return p :: (← readProductions rest)

/-- The lines of a grammar text, numbered from one. -/
def numberedLines (text : String) : List (Nat × List Char) :=
  (Text.lines text.toList).zipIdx.map fun (line, i) => (i + 1, line)

/-- The first use, in order, of a nonterminal without productions, with its line. -/
def firstUndefined? (productions : List Production) : Option (Nat × String) :=
  let defined := productions.map Production.lhs
  productions.findSome? fun p =>
    (p.references.find? (· ∉ defined)).map fun name => (p.line, name)

/-- The symbols of productions, in first-seen order. -/
def alphabetOf (productions : List Production) : Alphabet :=
  Alphabet.base.internAll (productions.flatMap Production.names)

/-- The rules of productions, one for every alternative. -/
def rulesOf (a : Alphabet) (productions : List Production) : List Rule :=
  (productions.flatMap fun p => p.alternatives.map fun names => (p.lhs, names)).zipIdx.map
    fun ((lhs, names), number) => ⟨number, a.code lhs, names.map a.code⟩

/-- The grammar of productions whose nonterminals all have productions. -/
def ofProductions (productions : List Production) : Except GrammarError Grammar :=
  match productions with
  | [] => .error .noRules
  | first :: _ =>
    match firstUndefined? productions with
    | some (line, name) => .error (.undefinedNonterminal line name)
    | none =>
      let a := alphabetOf productions
      .ok ⟨a, rulesOf a productions, a.code first.lhs⟩

/-- Read a grammar text. -/
def ofText (text : String) : Except GrammarError Grammar := do
  ofProductions (← readProductions (numberedLines text))

/-- The rule of a number. -/
def rule? (g : Grammar) (number : Nat) : Option Rule :=
  g.rules[number]?

/-- The rules of a nonterminal in order. -/
def rulesFor (g : Grammar) (nonterminal : Code) : List Rule :=
  g.rules.filter (·.lhs == nonterminal)

/-- The rules, one per line. -/
def renderRules (g : Grammar) : String :=
  String.intercalate "\n" (g.rules.map (·.render g.alphabet))

end Grammar

end PredictiveFrontend

import PredictiveFrontend.Files.ReadFailure
import PredictiveFrontend.Text.Quoted

/-!
# Grammar errors

What can be wrong with a grammar text: a line that is no production, a name out of place, no
production at all, or two rules that claim one entry of the prediction table.
-/

namespace PredictiveFrontend

open Text

/-- A reason why a text is not accepted as a grammar. -/
inductive GrammarError where
  /-- A line without `->`. -/
  | missingArrow (line : Nat)
  /-- A line with more than one `->`. -/
  | unexpectedArrow (line : Nat)
  /-- Nothing in front of `->`. -/
  | missingLeftSide (line : Nat)
  /-- More than one name in front of `->`. -/
  | multipleLeftSides (line : Nat) (names : List String)
  /-- A left side that is not the name of a nonterminal. -/
  | notNonterminal (line : Nat) (name : String)
  /-- An alternative without names. -/
  | emptyAlternative (line : Nat)
  /-- A name kept for the end of input. -/
  | reservedName (line : Nat) (name : String)
  /-- Characters that no line may hold. -/
  | unrecognized (line : Nat) (text : String)
  /-- A nonterminal without a production. -/
  | undefinedNonterminal (line : Nat) (name : String)
  /-- A text without productions. -/
  | noRules
  /-- Two rules for one nonterminal and lookahead. -/
  | conflict (nonterminal lookahead : String) (existing replacement : Nat)
  /-- A grammar file that cannot be read. -/
  | unreadable (path : String) (cause : ReadFailure)
  deriving DecidableEq, Repr

namespace GrammarError

/-- The line that an error is about, if there is one. -/
def line? : GrammarError → Option Nat
  | .missingArrow line | .unexpectedArrow line | .missingLeftSide line
  | .multipleLeftSides line _ | .notNonterminal line _ | .emptyAlternative line
  | .reservedName line _ | .unrecognized line _ | .undefinedNonterminal line _ => some line
  | .noRules | .conflict .. | .unreadable .. => none

/-- The text of an error. -/
def message : GrammarError → String
  | .missingArrow line => s!"line {line}: expected `->` after the left-hand side"
  | .unexpectedArrow line => s!"line {line}: more than one `->`"
  | .missingLeftSide line => s!"line {line}: missing left-hand side"
  | .multipleLeftSides line names =>
    s!"line {line}: left-hand side must be a single name, found " ++ quotedList names
  | .notNonterminal line name => s!"line {line}: left-hand side `{name}` is not a nonterminal"
  | .emptyAlternative line =>
    s!"line {line}: empty alternative (use EPSILON for the empty production)"
  | .reservedName line name => s!"line {line}: `{name}` is reserved"
  | .unrecognized line text => s!"line {line}: unrecognized text " ++ quoted text
  | .undefinedNonterminal line name =>
    s!"line {line}: nonterminal `{name}` is used but never defined"
  | .noRules => "grammar has no rules"
  | .conflict nonterminal lookahead existing replacement =>
    s!"grammar is not LL(1): table entry ({nonterminal}, {lookahead}) claimed by rule " ++
      s!"{existing} and rule {replacement}"
  | .unreadable path cause => s!"failed to read grammar {path}: " ++ cause.message

end GrammarError

end PredictiveFrontend

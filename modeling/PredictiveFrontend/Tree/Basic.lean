import PredictiveFrontend.Grammar.Alphabet
import PredictiveFrontend.Token.Basic

/-!
# Parse trees

A parse tree has a nonterminal at every inner node, with the rule it was expanded by, and at its
leaves terminals with the tokens matched against them, markers of empty right sides, and
nonterminals that were never expanded. The tree of a derivation that stopped early has leaves of
the last kind and terminals without a token.
-/

namespace PredictiveFrontend

/-- A tree over the names of grammar symbols. -/
inductive ParseTree where
  /-- The one child of a node whose rule has an empty right side. -/
  | emptyWord
  /-- A terminal, with the token matched against it if there is one. -/
  | leaf (symbol : String) (token : Option Token)
  /-- A nonterminal that was not expanded. -/
  | unexpanded (symbol : String)
  /-- A nonterminal expanded by the rule of a number. -/
  | node (symbol : String) (rule : Nat) (children : List ParseTree)
  deriving Repr

namespace ParseTree

instance : Inhabited ParseTree := ⟨emptyWord⟩

/-- The symbol at the root. -/
def symbol : ParseTree → String
  | emptyWord => SymbolName.epsilon
  | leaf symbol _ => symbol
  | unexpanded symbol => symbol
  | node symbol _ _ => symbol

/-- The trees below the root. -/
def children : ParseTree → List ParseTree
  | node _ _ children => children
  | _ => []

mutual

/-- The number of nodes. -/
def size : ParseTree → Nat
  | node _ _ children => 1 + sizeAll children
  | _ => 1

/-- The number of nodes of several trees. -/
def sizeAll : List ParseTree → Nat
  | [] => 0
  | t :: rest => size t + sizeAll rest

end

mutual

/-- The tokens at the leaves, from left to right. -/
def tokens : ParseTree → List Token
  | leaf _ token => token.toList
  | node _ _ children => tokensAll children
  | _ => []

/-- The tokens at the leaves of several trees. -/
def tokensAll : List ParseTree → List Token
  | [] => []
  | t :: rest => tokens t ++ tokensAll rest

end

mutual

/-- The rules of the inner nodes, each node before the ones below it and from left to right. -/
def rules : ParseTree → List Nat
  | node _ rule children => rule :: rulesAll children
  | _ => []

/-- The rules of the inner nodes of several trees. -/
def rulesAll : List ParseTree → List Nat
  | [] => []
  | t :: rest => rules t ++ rulesAll rest

end

theorem size_eq (t : ParseTree) : t.size = 1 + sizeAll t.children := by
  cases t <;> simp [size, children, sizeAll]

@[simp] theorem sizeAll_append (ts us : List ParseTree) :
    sizeAll (ts ++ us) = sizeAll ts + sizeAll us := by
  induction ts with
  | nil => simp [sizeAll]
  | cons t rest ih => simp [sizeAll, ih, Nat.add_assoc]

end ParseTree

end PredictiveFrontend

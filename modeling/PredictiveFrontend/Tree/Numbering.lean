import PredictiveFrontend.Tree.Basic

/-!
# Numbered nodes

A tree is stored as a list of records that refer to each other by number. The root has number zero.
A derivation expands the leftmost nonterminal first, and the children of a node get the next free
numbers at the moment when the node is expanded; so the nodes are visited from left to right, each
node before the ones below it, and every visit numbers the children of the node.
-/

namespace PredictiveFrontend

/-- What stands at a node, apart from its symbol and its children. -/
inductive NodeContent where
  | emptyWord
  /-- A terminal, with its token if there is one. -/
  | terminal (token : Option Token)
  /-- A nonterminal, with its rule if it was expanded. -/
  | nonterminal (rule : Option Nat)
  deriving DecidableEq, Repr

/-- A node of a tree that refers to its children by number. -/
structure NodeRecord where
  number : Nat
  symbol : String
  content : NodeContent
  /-- The numbers of the children in order. -/
  children : List Nat
  deriving DecidableEq, Repr

namespace ParseTree

/-- What stands at the root. -/
def content : ParseTree → NodeContent
  | emptyWord => .emptyWord
  | leaf _ token => .terminal token
  | unexpanded _ => .nonterminal none
  | node _ rule _ => .nonterminal (some rule)

/-- The records of numbered trees in the order of the visit; `next` is the first free number. -/
def recordsFrom (next : Nat) (pending : List (Nat × ParseTree)) : List NodeRecord :=
  match pending with
  | [] => []
  | (number, t) :: rest =>
    let count := t.children.length
    let numbers := List.range' next count
    ⟨number, t.symbol, t.content, numbers⟩ ::
      recordsFrom (next + count) (numbers.zip t.children ++ rest)
termination_by sizeAll (pending.map Prod.snd)
decreasing_by
  have := t.size_eq
  rw [List.map_append, List.map_snd_zip (by simp), sizeAll_append]
  simp only [List.map_cons, sizeAll]
  omega

/-- The records of all nodes in the order of their numbers. -/
def records (t : ParseTree) : List NodeRecord :=
  (recordsFrom 1 [(0, t)]).mergeSort fun r s => r.number ≤ s.number

end ParseTree

end PredictiveFrontend

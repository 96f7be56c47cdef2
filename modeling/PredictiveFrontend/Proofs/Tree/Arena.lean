import PredictiveFrontend.Proofs.Tree.Numbering
import PredictiveFrontend.Proofs.Tree.Refusal

/-!
# Replays in an arena

A tree can be replayed in an arena, a list of nodes that refer to each other by their positions. The
nodes of a right side are stored before the node above them is linked to them, and the ones still to
be visited wait on a stack; in between the arena holds nodes that are linked to nothing. Yet a
replay in an arena does what the growing of trees does. It ends, with the same error if there is
one, and otherwise the arena holds the numbered nodes of the tree.
-/

namespace PredictiveFrontend

open ParseTree (Growth grow ruleOfStep recordsFrom)

/-! ### Nodes -/

/-- A node as it is stored in an arena. -/
structure TreeNode where
  symbol : String
  code : Code
  content : NodeContent
  /-- The positions of the children in order. -/
  children : List Nat
  deriving DecidableEq, Repr

namespace TreeNode

/-- A node for a symbol that was not visited yet. -/
def unvisited (g : CompiledGrammar) (c : Code) : TreeNode :=
  ⟨g.name c, c, if g.alphabet.isTerminal c then .terminal none else .nonterminal none, []⟩

/-- The one node below a node whose rule has an empty right side. -/
def marker (g : CompiledGrammar) : TreeNode :=
  ⟨g.name Code.epsilon, Code.epsilon, .emptyWord, []⟩

/-- The nodes below a node that is expanded by a rule. -/
def below (g : CompiledGrammar) (r : Rule) : List TreeNode :=
  if r.isEpsilon then [marker g] else r.rhs.map (unvisited g)

theorem below_eq_map {g : CompiledGrammar} {r : Rule} (h : r.isEpsilon = false) :
    below g r = r.rhs.map (unvisited g) := by
  rw [below, h, if_neg Bool.false_ne_true]

/-- The node with another content. -/
def withContent (content : NodeContent) (n : TreeNode) : TreeNode :=
  { n with content := content }

/-- The node with other children. -/
def withChildren (children : List Nat) (n : TreeNode) : TreeNode :=
  { n with children := children }

/-- The record of the node at a position. -/
def record (position : Nat) (n : TreeNode) : NodeRecord :=
  ⟨position, n.symbol, n.content, n.children⟩

/-- The records of stored nodes. -/
def records (nodes : List TreeNode) : List NodeRecord :=
  nodes.mapIdx record

/-- Store a node behind others; its position, and all nodes. -/
def push (nodes : List TreeNode) (n : TreeNode) : Nat × List TreeNode :=
  (nodes.length, nodes ++ [n])

/-- Store nodes one after the other; their positions, and all nodes. -/
def pushAll (nodes : List TreeNode) : List TreeNode → List Nat × List TreeNode
  | [] => ([], nodes)
  | n :: rest =>
    let (position, stored) := push nodes n
    let (positions, all) := pushAll stored rest
    (position :: positions, all)

theorem pushAll_eq (nodes new : List TreeNode) :
    pushAll nodes new = (List.range' nodes.length new.length, nodes ++ new) := by
  induction new generalizing nodes with
  | nil => simp [pushAll]
  | cons n new ih => simp [pushAll, push, ih, List.range'_succ]

end TreeNode

/-! ### Replays -/

/-- A replay on its way. -/
structure TreeArena where
  nodes : List TreeNode
  /-- The positions of the nodes still to be visited, the next one first. -/
  pending : List Nat
  /-- The numbers of the rules not yet applied, each with its position. -/
  steps : List (Nat × Nat)
  tokens : List Token

namespace TreeArena

/-- The nodes at the end of a replay, if no steps are left. -/
def finish (steps : List (Nat × Nat)) (nodes : List TreeNode) : Except TreeError (List TreeNode) :=
  match steps with
  | [] => .ok nodes
  | extra => .error (.unusedSteps extra.length)

/-- A terminal that is visited gets the next token. -/
def takeToken (a : TreeArena) (position : Nat) (n : TreeNode) : TreeArena :=
  match n.content with
  | .terminal _ =>
    { a with
      nodes := a.nodes.modify position (.withContent (.terminal a.tokens.head?))
      tokens := a.tokens.tail }
  | _ => a

/-- A nonterminal that is visited is expanded: it gets its rule, then the nodes below it are stored,
then all of them but a marker are put on the stack, and at last it is linked to them. -/
def expand (g : CompiledGrammar) (a : TreeArena) (position : Nat) (r : Rule) : TreeArena :=
  let ruled := a.nodes.modify position (.withContent (.nonterminal (some r.number)))
  let (children, stored) := TreeNode.pushAll ruled (TreeNode.below g r)
  let waiting := children.filter fun child =>
    stored[child]?.map TreeNode.content != some .emptyWord
  { a with
    nodes := stored.modify position (.withChildren children)
    pending := waiting ++ a.pending }

@[simp] theorem steps_takeToken (a : TreeArena) (position : Nat) (n : TreeNode) :
    (a.takeToken position n).steps = a.steps := by
  unfold takeToken
  split <;> rfl

@[simp] theorem pending_takeToken (a : TreeArena) (position : Nat) (n : TreeNode) :
    (a.takeToken position n).pending = a.pending := by
  unfold takeToken
  split <;> rfl

@[simp] theorem steps_expand (g : CompiledGrammar) (a : TreeArena) (position : Nat) (r : Rule) :
    (a.expand g position r).steps = a.steps :=
  rfl

/-- Visit the nodes on the stack, until it is empty or a nonterminal finds no step. There is no
result where a position without a node is met. -/
def replayFrom? (g : CompiledGrammar) (a : TreeArena) :
    Option (Except TreeError (List TreeNode)) :=
  match _ : a.pending with
  | [] => some (finish a.steps a.nodes)
  | position :: pending =>
    match a.nodes[position]? with
    | none => none
    | some n =>
      if g.alphabet.isTerminal n.code then
        replayFrom? g (takeToken { a with pending := pending } position n)
      else
        match _ : a.steps with
        | [] => some (finish [] a.nodes)
        | step :: later =>
          match ruleOfStep g n.code step with
          | .error e => some (.error e)
          | .ok r =>
            replayFrom? g (expand g { a with pending := pending, steps := later } position r)
termination_by (a.steps.length, a.pending.length)
decreasing_by
  · rw [steps_takeToken, pending_takeToken]
    exact Prod.Lex.right _ (by simp [*])
  · rw [steps_expand]
    exact Prod.Lex.left _ _ (by simp [*])

/-- Replay a derivation from the start symbol, with the significant ones of the tokens. -/
def replay? (g : CompiledGrammar) (d : Derivation) (tokens : List Token) :
    Option (Except TreeError (List TreeNode)) :=
  let (root, nodes) := TreeNode.push [] (.unvisited g g.start)
  replayFrom? g ⟨nodes, [root], d.ruleNumbers.zipIdx, Token.significant tokens⟩

variable {g : CompiledGrammar}

/-! ### Steps -/

/-- The nodes after a nonterminal was expanded. -/
def expandedNodes (g : CompiledGrammar) (nodes : List TreeNode) (position : Nat) (r : Rule) :
    List TreeNode :=
  let ruled := nodes.modify position (.withContent (.nonterminal (some r.number)))
  (ruled ++ TreeNode.below g r).modify position
    (.withChildren (List.range' nodes.length (TreeNode.below g r).length))

/-- The positions at which the nodes of a right side wait; a marker does not. -/
def waiting (nodes : List TreeNode) (r : Rule) : List Nat :=
  if r.isEpsilon then [] else List.range' nodes.length r.rhs.length

section

variable {nodes : List TreeNode} {position : Nat} {r : Rule}

theorem length_expandedNodes :
    (expandedNodes g nodes position r).length = nodes.length + (TreeNode.below g r).length := by
  simp [expandedNodes]

/-- The expanded node has its rule, and the new nodes as its children. -/
theorem getElem?_expandedNodes_self {n : TreeNode} (hn : nodes[position]? = some n) :
    (expandedNodes g nodes position r)[position]? =
      some ((n.withContent (.nonterminal (some r.number))).withChildren
        (List.range' nodes.length (TreeNode.below g r).length)) := by
  have hlt : position < nodes.length := (List.getElem?_eq_some_iff.mp hn).1
  rw [expandedNodes, List.getElem?_modify_eq, List.getElem?_append_left (by simpa using hlt),
    List.getElem?_modify_eq, hn]
  rfl

theorem getElem?_expandedNodes_of_ne {other : Nat} (hlt : other < nodes.length)
    (hne : other ≠ position) : (expandedNodes g nodes position r)[other]? = nodes[other]? := by
  rw [expandedNodes, List.getElem?_modify_ne _ _ (Ne.symm hne),
    List.getElem?_append_left (by simpa using hlt), List.getElem?_modify_ne _ _ (Ne.symm hne)]

/-- The new nodes stand behind the older ones. -/
theorem getElem?_expandedNodes_add (hlt : position < nodes.length) (i : Nat) :
    (expandedNodes g nodes position r)[nodes.length + i]? = (TreeNode.below g r)[i]? := by
  have hne : position ≠ nodes.length + i := by omega
  rw [expandedNodes, List.getElem?_modify_ne _ _ hne, List.getElem?_append_right (by simp)]
  simp

/-- A node for a symbol is no marker. -/
theorem content_unvisited_ne (g : CompiledGrammar) (c : Code) :
    (TreeNode.unvisited g c).content ≠ .emptyWord := by
  unfold TreeNode.unvisited
  split <;> simp

/-- The nodes of a right side are put on the stack; a marker is not. -/
theorem filter_below (ruled : List TreeNode) :
    ((List.range' ruled.length (TreeNode.below g r).length).filter fun child =>
      (ruled ++ TreeNode.below g r)[child]?.map TreeNode.content != some .emptyWord) =
      waiting ruled r := by
  rw [waiting]
  cases hepsilon : r.isEpsilon with
  | true =>
    simp [TreeNode.below, hepsilon, TreeNode.marker]
  | false =>
    rw [TreeNode.below_eq_map hepsilon, List.length_map, if_neg Bool.false_ne_true, List.filter_eq_self]
    intro child hchild
    obtain ⟨hle, hlt⟩ := List.mem_range'_1.mp hchild
    have hindex : child - ruled.length < r.rhs.length := by omega
    rw [List.getElem?_append_right hle, List.getElem?_map, List.getElem?_eq_getElem hindex]
    simpa using content_unvisited_ne g _

theorem expand_eq (pending : List Nat) (steps : List (Nat × Nat)) (tokens : List Token) :
    expand g ⟨nodes, pending, steps, tokens⟩ position r =
      ⟨expandedNodes g nodes position r, waiting nodes r ++ pending, steps, tokens⟩ := by
  have hwaiting := filter_below (g := g) (r := r)
    (nodes.modify position (.withContent (.nonterminal (some r.number))))
  rw [waiting, List.length_modify] at hwaiting
  simp only [expand, TreeNode.pushAll_eq, List.length_modify, hwaiting]
  rfl

end

section

variable {nodes : List TreeNode} {position : Nat} {c : Code} (pending : List Nat)

/-- A terminal takes a token, and nothing else is done. -/
theorem replayFrom?_terminal (hc : g.alphabet.isTerminal c = true)
    (hn : nodes[position]? = some (.unvisited g c)) (steps : List (Nat × Nat))
    (tokens : List Token) :
    replayFrom? g ⟨nodes, position :: pending, steps, tokens⟩ =
      replayFrom? g ⟨nodes.modify position (.withContent (.terminal tokens.head?)), pending, steps,
        tokens.tail⟩ := by
  have hcode : (TreeNode.unvisited g c).code = c := rfl
  have htake : takeToken ⟨nodes, pending, steps, tokens⟩ position (.unvisited g c) =
      ⟨nodes.modify position (.withContent (.terminal tokens.head?)), pending, steps,
        tokens.tail⟩ := by
    simp [takeToken, TreeNode.unvisited, hc]
  rw [replayFrom?]
  simp only [hn, hcode, hc, if_true, htake]

/-- A nonterminal without a step ends the replay. -/
theorem replayFrom?_stop (hc : g.alphabet.isTerminal c = false)
    (hn : nodes[position]? = some (.unvisited g c)) (tokens : List Token) :
    replayFrom? g ⟨nodes, position :: pending, [], tokens⟩ = some (.ok nodes) := by
  have hcode : (TreeNode.unvisited g c).code = c := rfl
  rw [replayFrom?]
  simp only [hn, hcode, hc, Bool.false_eq_true, if_false]
  rfl

/-- A nonterminal with a step is expanded, if the step has a rule for it. -/
theorem replayFrom?_step (hc : g.alphabet.isTerminal c = false)
    (hn : nodes[position]? = some (.unvisited g c)) (step : Nat × Nat) (later : List (Nat × Nat))
    (tokens : List Token) :
    replayFrom? g ⟨nodes, position :: pending, step :: later, tokens⟩ =
      match ruleOfStep g c step with
      | .error e => some (.error e)
      | .ok r =>
        replayFrom? g ⟨expandedNodes g nodes position r, waiting nodes r ++ pending, later,
          tokens⟩ := by
  have hcode : (TreeNode.unvisited g c).code = c := rfl
  rw [replayFrom?]
  simp only [hn, hcode, hc, Bool.false_eq_true, if_false, expand_eq]

end

/-! ### Visits -/

variable {nodes : List TreeNode} {position : Nat} {pending : List Nat} {c : Code}

/-- The nodes on the stack are different ones, none of them was visited, and they stand for these
symbols. -/
structure Awaits (g : CompiledGrammar) (nodes : List TreeNode) (pending : List Nat)
    (symbols : List Code) : Prop where
  nodup : pending.Nodup
  unvisited : List.Forall₂ (fun position c => nodes[position]? = some (.unvisited g c))
    pending symbols

namespace Awaits

variable {symbols others : List Code}

theorem lt (h : Awaits g nodes pending symbols) (hmem : position ∈ pending) :
    position < nodes.length := by
  obtain ⟨i, hi⟩ := List.mem_iff_getElem?.mp hmem
  obtain ⟨c, -, hn⟩ := exists_getElem?_of_forall₂ h.unvisited hi
  exact (List.getElem?_eq_some_iff.mp hn).1

theorem head (h : Awaits g nodes (position :: pending) (c :: others)) :
    nodes[position]? = some (.unvisited g c) :=
  (List.forall₂_cons.mp h.unvisited).1

theorem head_not_mem (h : Awaits g nodes (position :: pending) (c :: others)) :
    position ∉ pending :=
  (List.nodup_cons.mp h.nodup).1

theorem head_not_mem_zip (h : Awaits g nodes (position :: pending) (c :: others))
    (ts : List ParseTree) : position ∉ (pending.zip ts).map Prod.fst := by
  intro hmem
  obtain ⟨_, hpair, rfl⟩ := List.mem_map.mp hmem
  exact h.head_not_mem (List.of_mem_zip hpair).1

theorem tail (h : Awaits g nodes (position :: pending) (c :: others)) :
    Awaits g nodes pending others :=
  ⟨(List.nodup_cons.mp h.nodup).2, (List.forall₂_cons.mp h.unvisited).2⟩

/-- Changes elsewhere leave the nodes on the stack as they are. -/
theorem congr (h : Awaits g nodes pending symbols) {nodes' : List TreeNode}
    (hsame : ∀ other ∈ pending, nodes'[other]? = nodes[other]?) :
    Awaits g nodes' pending symbols := by
  obtain ⟨hnodup, hunvisited⟩ := h
  refine ⟨hnodup, ?_⟩
  clear hnodup
  induction hunvisited with
  | nil => exact .nil
  | cons hn _ ih =>
    rw [List.forall_mem_cons] at hsame
    exact .cons (hsame.1.trans hn) (ih hsame.2)

/-- The nodes of a right side wait in front of the others. -/
theorem expand (h : Awaits g nodes (position :: pending) (c :: others)) (r : Rule) :
    Awaits g (expandedNodes g nodes position r) (waiting nodes r ++ pending)
      ((if r.isEpsilon then [] else r.rhs) ++ others) := by
  have hposition : position < nodes.length := h.lt (List.mem_cons_self ..)
  have hrest : Awaits g (expandedNodes g nodes position r) pending others :=
    h.tail.congr fun other hmem => getElem?_expandedNodes_of_ne (h.tail.lt hmem)
      fun he => h.head_not_mem (he ▸ hmem)
  rw [waiting]
  cases hepsilon : r.isEpsilon with
  | true => exact hrest
  | false =>
    simp only [Bool.false_eq_true, if_false]
    constructor
    case nodup =>
      refine List.nodup_append.mpr ⟨List.nodup_range', h.tail.nodup, ?_⟩
      intro new hnew old hold
      have hle : nodes.length ≤ new := (List.mem_range'_1.mp hnew).1
      have hlt : old < nodes.length := h.tail.lt hold
      omega
    case unvisited =>
      refine List.rel_append ?_ hrest.unvisited
      refine List.forall₂_iff_get.mpr ⟨by simp, fun i hi hi' => ?_⟩
      have hbelow : (TreeNode.below g r)[i]? = some (.unvisited g (r.rhs.get ⟨i, hi'⟩)) := by
        rw [TreeNode.below_eq_map hepsilon, List.getElem?_map, List.getElem?_eq_getElem hi']
        rfl
      simpa using (getElem?_expandedNodes_add hposition i).trans hbelow

end Awaits

/-- The nodes at the end are those from which visits of trees have started, but for the places of
these trees; there, and behind all nodes, they are the nodes of the trees, as they are numbered. -/
structure Stores (start : List TreeNode) (visited : List (Nat × ParseTree))
    (nodes : List TreeNode) : Prop where
  length_eq : nodes.length =
    start.length + ParseTree.sizeAll ((visited.map Prod.snd).flatMap ParseTree.children)
  record : ∀ r ∈ recordsFrom start.length visited,
    nodes[r.number]?.map (TreeNode.record r.number) = some r
  frame : ∀ position < start.length, position ∉ visited.map Prod.fst →
    nodes[position]? = start[position]?

namespace Stores

variable {start : List TreeNode} {t : ParseTree} {n : TreeNode} {rest : List (Nat × ParseTree)}

theorem nil (start : List TreeNode) : Stores start [] start where
  length_eq := rfl
  record r hr := by
    rw [recordsFrom] at hr
    cases hr
  frame _ _ _ := rfl

/-- The visit of a node changes this node alone and stores the nodes below it, which are visited
next. -/
theorem visit {start' : List TreeNode} (hlength : start'.length = start.length + t.children.length)
    (hposition : position < start.length) (hrest : position ∉ rest.map Prod.fst)
    (hn : start'[position]? = some n)
    (hrecord : n.record position = t.rootRecord position start.length)
    (hframe : ∀ other < start.length, other ≠ position → start'[other]? = start[other]?)
    (h : Stores start'
      ((List.range' start.length t.children.length).zip t.children ++ rest) nodes) :
    Stores start ((position, t) :: rest) nodes := by
  have hkept : ∀ other < start.length, other ∉ rest.map Prod.fst →
      nodes[other]? = start'[other]? := by
    intro other hother hmem
    refine h.frame other (by omega) ?_
    rw [List.map_append, ParseTree.map_fst_numbered, List.mem_append, List.mem_range'_1, not_or]
    exact ⟨fun hnew => Nat.not_lt_of_le hnew.1 hother, hmem⟩
  constructor
  case length_eq =>
    have hall := h.length_eq
    rw [List.map_append, ParseTree.map_snd_numbered, List.flatMap_append, ParseTree.sizeAll_append,
      hlength] at hall
    rw [List.map_cons, List.flatMap_cons, ParseTree.sizeAll_append, ParseTree.sizeAll_eq t.children]
    omega
  case record =>
    intro r hr
    rw [ParseTree.recordsFrom_cons] at hr
    rcases List.mem_cons.mp hr with rfl | hr
    · have hnumber : (t.rootRecord position start.length).number = position := rfl
      rw [hnumber, hkept position hposition hrest, hn, Option.map_some, hrecord]
    · exact h.record r (hlength ▸ hr)
  case frame =>
    intro other hother hmem
    rw [List.map_cons, List.mem_cons, not_or] at hmem
    rw [hkept other hother hmem.2, hframe other hother hmem.1]

/-- A node that is a leaf already may be visited without a change. -/
theorem keep (hrest : position ∉ rest.map Prod.fst) (hn : start[position]? = some n)
    (hchildren : t.children = []) (hrecord : n.record position = t.rootRecord position start.length)
    (h : Stores start rest nodes) : Stores start ((position, t) :: rest) nodes := by
  refine visit (by rw [hchildren]; rfl) (List.getElem?_eq_some_iff.mp hn).1 hrest hn hrecord
    (fun _ _ _ => rfl) ?_
  rw [hchildren]
  exact h

end Stores

/-- What grows without steps and tokens is stored already. -/
theorem Awaits.exists_grow_nil {symbols : List Code} (h : Awaits g nodes pending symbols) :
    ∃ growth, grow g symbols [] [] = .ok growth ∧
      Stores nodes (pending.zip growth.trees) nodes := by
  induction symbols generalizing pending with
  | nil =>
    rw [grow]
    refine ⟨_, rfl, ?_⟩
    rw [List.zip_nil_right]
    exact .nil nodes
  | cons c others ih =>
    obtain ⟨position, pending, hn, hothers, rfl⟩ := List.forall₂_cons_right_iff.mp h.unvisited
    obtain ⟨growth, hgrow, hstores⟩ := ih h.tail
    have hrest := h.head_not_mem_zip growth.trees
    cases hc : g.alphabet.isTerminal c with
    | true =>
      rw [ParseTree.grow_terminal _ _ _ hc, List.tail_nil, hgrow]
      refine ⟨_, rfl, hstores.keep hrest hn rfl ?_⟩
      rw [TreeNode.unvisited, hc]
      rfl
    | false =>
      rw [ParseTree.grow_unexpanded _ _ hc, hgrow]
      refine ⟨_, rfl, hstores.keep hrest hn rfl ?_⟩
      rw [TreeNode.unvisited, hc]
      rfl

/-- From nodes and a stack on a replay ends, as the growing of trees from the symbols on the
stack. -/
inductive Agrees (g : CompiledGrammar) (nodes : List TreeNode) (pending : List Nat)
    (steps : List (Nat × Nat)) (tokens : List Token) (symbols : List Code) : Prop where
  | error {e : TreeError} (hgrow : grow g symbols steps tokens = .error e)
    (hreplay : replayFrom? g ⟨nodes, pending, steps, tokens⟩ = some (.error e)) :
    Agrees g nodes pending steps tokens symbols
  | ok {growth : Growth steps.length} {stored : List TreeNode}
    (hgrow : grow g symbols steps tokens = .ok growth)
    (hreplay : replayFrom? g ⟨nodes, pending, steps, tokens⟩ = some (finish growth.steps stored))
    (hstores : Stores nodes (pending.zip growth.trees) stored) :
    Agrees g nodes pending steps tokens symbols

namespace Agrees

variable {others : List Code} {steps : List (Nat × Nat)} {tokens : List Token}

theorem nil (nodes : List TreeNode) (steps : List (Nat × Nat)) (tokens : List Token) :
    Agrees g nodes [] steps tokens [] := by
  have hgrow : grow g [] steps tokens = .ok ⟨[], steps, tokens, Nat.le_refl _⟩ := by rw [grow]
  have hreplay : replayFrom? g ⟨nodes, [], steps, tokens⟩ = some (finish steps nodes) := by
    rw [replayFrom?]
  exact .ok hgrow hreplay (Stores.nil nodes)

/-- A terminal becomes a leaf with the next token. -/
theorem terminal (hc : g.alphabet.isTerminal c = true)
    (h : Awaits g nodes (position :: pending) (c :: others))
    (hrest : Agrees g (nodes.modify position (.withContent (.terminal tokens.head?))) pending steps
      tokens.tail others) :
    Agrees g nodes (position :: pending) steps tokens (c :: others) := by
  have hreplays := replayFrom?_terminal pending hc h.head steps tokens
  cases hrest with
  | error hgrow hreplay =>
    refine .error ?_ (hreplays.trans hreplay)
    rw [ParseTree.grow_terminal _ _ _ hc, hgrow]
    rfl
  | ok hgrow hreplay hstores =>
    next rest stored =>
    have hgrown : grow g (c :: others) steps tokens =
        .ok ⟨.leaf (g.name c) tokens.head? :: rest.trees, rest.steps, rest.tokens,
          rest.steps_le⟩ := by
      rw [ParseTree.grow_terminal _ _ _ hc, hgrow]
      rfl
    have hn : (nodes.modify position (.withContent (.terminal tokens.head?)))[position]? =
        some ((TreeNode.unvisited g c).withContent (.terminal tokens.head?)) := by
      rw [List.getElem?_modify_eq, h.head]
      rfl
    refine .ok hgrown (hreplays.trans hreplay) (.visit (List.length_modify ..)
      (h.lt (List.mem_cons_self ..)) (h.head_not_mem_zip _) hn rfl (fun other _ hne => ?_) hstores)
    exact List.getElem?_modify_ne _ _ (Ne.symm hne)

/-- A nonterminal without a step stays as it is, and so does everything behind it. -/
theorem stop (hc : g.alphabet.isTerminal c = false)
    (h : Awaits g nodes (position :: pending) (c :: others)) (tokens : List Token) :
    Agrees g nodes (position :: pending) [] tokens (c :: others) := by
  obtain ⟨growth, hgrow, hstores⟩ := h.exists_grow_nil
  have hsame : grow g (c :: others) [] tokens = grow g (c :: others) [] [] := by
    rw [ParseTree.grow_unexpanded _ _ hc, ParseTree.grow_unexpanded _ _ hc]
  have hsteps : growth.steps = [] := List.length_eq_zero_iff.mp (Nat.le_zero.mp growth.steps_le)
  refine .ok (hsame.trans hgrow) ?_ hstores
  rw [replayFrom?_stop pending hc h.head, hsteps]
  rfl

/-- What a nonterminal grows into is stored where the right side of its rule waits in front of the
other symbols. -/
theorem stores_node (hname : g.name Code.epsilon = SymbolName.epsilon)
    (h : Awaits g nodes (position :: pending) (c :: others)) {r : Rule}
    {below : Growth steps.length}
    (hbelow : grow g (if r.isEpsilon then [] else r.rhs) steps tokens = .ok below)
    {trees : List ParseTree} {stored : List TreeNode}
    (hstores : Stores (expandedNodes g nodes position r)
      ((waiting nodes r ++ pending).zip (below.trees ++ trees)) stored) :
    Stores nodes ((position, .node (g.name c) r.number
      (if r.isEpsilon then [.emptyWord] else below.trees)) :: pending.zip trees) stored := by
  have hposition : position < nodes.length := h.lt (List.mem_cons_self ..)
  have hcount := ParseTree.length_trees hbelow
  have hself := getElem?_expandedNodes_self (g := g) (r := r) h.head
  have hother : ∀ other < nodes.length, other ≠ position →
      (expandedNodes g nodes position r)[other]? = nodes[other]? :=
    fun other hlt hne => getElem?_expandedNodes_of_ne hlt hne
  have hrest := h.head_not_mem_zip trees
  rw [waiting] at hstores
  cases hepsilon : r.isEpsilon with
  | true =>
    -- The marker is stored and numbered like any other node, but nothing is left to do at it.
    simp only [hepsilon, if_true] at hcount hstores ⊢
    rw [List.length_eq_zero_iff.mp hcount] at hstores
    have hone : (TreeNode.below g r).length = 1 := by simp [TreeNode.below, hepsilon]
    have hmarker : (expandedNodes g nodes position r)[nodes.length]? = some (.marker g) := by
      simpa [TreeNode.below, hepsilon] using getElem?_expandedNodes_add (r := r) hposition 0
    refine .visit (length_expandedNodes.trans (by rw [hone]; rfl)) hposition hrest hself ?_ hother
      (.keep ?_ hmarker rfl ?_ hstores)
    · rw [hone]
      rfl
    · intro hmem
      obtain ⟨_, hpair, he⟩ := List.mem_map.mp hmem
      exact absurd (h.tail.lt (List.of_mem_zip hpair).1) (he ▸ Nat.lt_irrefl _)
    · rw [TreeNode.marker, hname]
      rfl
  | false =>
    simp only [hepsilon, Bool.false_eq_true, if_false] at hcount hstores ⊢
    have hlength : (TreeNode.below g r).length = below.trees.length := by
      rw [TreeNode.below_eq_map hepsilon, List.length_map, hcount]
    rw [← hcount, List.zip_append (by simp)] at hstores
    refine .visit (length_expandedNodes.trans (by rw [hlength]; rfl)) hposition hrest hself ?_
      hother hstores
    rw [hlength]
    rfl

/-- A nonterminal becomes a node that is linked to the nodes of the right side. -/
theorem expand (hc : g.alphabet.isTerminal c = false)
    (hname : g.name Code.epsilon = SymbolName.epsilon)
    (h : Awaits g nodes (position :: pending) (c :: others)) {step : Nat × Nat} {r : Rule}
    (hr : ruleOfStep g c step = .ok r)
    (hrest : Agrees g (expandedNodes g nodes position r) (waiting nodes r ++ pending) steps tokens
      ((if r.isEpsilon then [] else r.rhs) ++ others)) :
    Agrees g nodes (position :: pending) (step :: steps) tokens (c :: others) := by
  have hreplays := replayFrom?_step pending hc h.head step steps tokens
  simp only [hr] at hreplays
  cases hrest with
  | error hgrow hreplay =>
    refine .error ?_ (hreplays.trans hreplay)
    rw [ParseTree.grow_append] at hgrow
    rw [ParseTree.grow_node _ _ _ hc, hr]
    rcases bind_eq_error.mp hgrow with hbelow | ⟨below, hbelow, hgrow⟩
    · exact bind_eq_error.mpr (.inr ⟨r, rfl, bind_eq_error.mpr (.inl hbelow)⟩)
    · rcases bind_eq_error.mp hgrow with hothers | ⟨_, _, he⟩
      · exact bind_eq_error.mpr (.inr ⟨r, rfl, bind_eq_error.mpr (.inr ⟨below, hbelow,
          bind_eq_error.mpr (.inl hothers)⟩)⟩)
      · cases he
  | ok hgrow hreplay hstores =>
    rw [ParseTree.grow_append] at hgrow
    obtain ⟨below, hbelow, hgrow⟩ := bind_eq_ok.mp hgrow
    obtain ⟨rest, hothers, he⟩ := bind_eq_ok.mp hgrow
    cases he
    have hgrown : grow g (c :: others) (step :: steps) tokens =
        .ok ⟨.node (g.name c) r.number (if r.isEpsilon then [.emptyWord] else below.trees) ::
          rest.trees, rest.steps, rest.tokens,
          Nat.le_succ_of_le (Nat.le_trans rest.steps_le below.steps_le)⟩ := by
      rw [ParseTree.grow_node _ _ _ hc, hr]
      exact bind_eq_ok.mpr ⟨r, rfl, bind_eq_ok.mpr ⟨below, hbelow,
        bind_eq_ok.mpr ⟨rest, hothers, rfl⟩⟩⟩
    exact .ok hgrown (hreplays.trans hreplay) (stores_node hname h hbelow hstores)

end Agrees

/-- Every replay in an arena ends, as the growing of trees. -/
theorem Awaits.agrees (hname : g.name Code.epsilon = SymbolName.epsilon) {symbols : List Code}
    (h : Awaits g nodes pending symbols) (steps : List (Nat × Nat)) (tokens : List Token) :
    Agrees g nodes pending steps tokens symbols := by
  -- A right side is put in front of the other symbols, as it is on the stack.
  induction symbols, steps using ParseTree.stepsLeft.induct g generalizing nodes pending tokens with
  | case1 steps =>
    obtain rfl := List.forall₂_nil_right_iff.mp h.unvisited
    exact .nil nodes steps tokens
  | case2 steps c others hc ih =>
    obtain ⟨position, pending, -, -, rfl⟩ := List.forall₂_cons_right_iff.mp h.unvisited
    refine .terminal hc h (ih (h.tail.congr fun other hmem => ?_) tokens.tail)
    have hne : position ≠ other := fun he => h.head_not_mem (he ▸ hmem)
    exact List.getElem?_modify_ne _ _ hne
  | case3 c others hc =>
    rw [Bool.not_eq_true] at hc
    obtain ⟨position, pending, -, -, rfl⟩ := List.forall₂_cons_right_iff.mp h.unvisited
    exact .stop hc h tokens
  | case4 c others hc step later ih =>
    rw [Bool.not_eq_true] at hc
    obtain ⟨position, pending, -, -, rfl⟩ := List.forall₂_cons_right_iff.mp h.unvisited
    cases hr : ruleOfStep g c step with
    | error e =>
      refine .error (e := e) ?_ ?_
      · rw [ParseTree.grow_node _ _ _ hc, hr]
        rfl
      · rw [replayFrom?_step pending hc h.head, hr]
    | ok r =>
      simp only [dite_eq_ite] at ih
      exact .expand hc hname h hr (ih r (h.expand r) tokens)

/-- What is stored by the visits from the root on is the tree, as it is numbered. -/
theorem Stores.records_eq {n : TreeNode} {t : ParseTree} {stored : List TreeNode}
    (h : Stores [n] [(0, t)] stored) : TreeNode.records stored = t.records := by
  have hlength : stored.length = t.size := by
    rw [h.length_eq, ParseTree.size_eq]
    simp
  refine List.ext_getElem? fun position => ?_
  rw [TreeNode.records, List.getElem?_mapIdx]
  by_cases hlt : position < t.size
  · have hr := List.getElem?_eq_getElem (l := t.records) (by rwa [ParseTree.length_records])
    obtain ⟨hmem, hnumber⟩ := ParseTree.getElem?_records_eq_some.mp hr
    have hrecord := h.record _ hmem
    rw [hnumber] at hrecord
    rw [hrecord, hr]
  · rw [List.getElem?_eq_none (by omega), List.getElem?_eq_none (by
      rw [ParseTree.length_records]
      omega)]
    rfl

/-- A replay in an arena ends with the error of the replay that grows a tree, or with the numbered
nodes of the tree. -/
theorem map_replay? (hname : g.name Code.epsilon = SymbolName.epsilon) (d : Derivation)
    (tokens : List Token) :
    (replay? g d tokens).map (Except.map TreeNode.records) =
      some ((ParseTree.ofDerivation g d tokens).map ParseTree.records) := by
  have hawaits : Awaits g [.unvisited g g.start] [0] [g.start] :=
    ⟨List.nodup_singleton 0, .cons rfl .nil⟩
  have hstart : replay? g d tokens = replayFrom? g
    ⟨[.unvisited g g.start], [0], d.ruleNumbers.zipIdx, Token.significant tokens⟩ := rfl
  rw [hstart, ParseTree.ofDerivation, ParseTree.ofRules]
  cases hawaits.agrees hname d.ruleNumbers.zipIdx (Token.significant tokens) with
  | error hgrow hreplay =>
    rw [hreplay, hgrow]
    rfl
  | ok hgrow hreplay hstores =>
    next growth stored =>
    obtain ⟨tree, htree⟩ := List.length_eq_one_iff.mp (ParseTree.length_trees hgrow)
    rw [htree] at hstores
    have hrecords : TreeNode.records stored = tree.records := hstores.records_eq
    rw [hreplay, hgrow]
    simp only [bind, Except.bind, htree]
    cases growth.steps with
    | nil => exact congrArg (some ∘ Except.ok) hrecords
    | cons step later => rfl

end TreeArena

namespace ParseTree

/-- The nodes of the tree of a derivation are numbered as they are stored when the derivation is
replayed in an arena, and they form a tree whose root has number zero. So the traversals that follow
the numbers end, the one that collects the tokens and the one that draws the tree; both meet every
node once, in the same order. -/
theorem ofDerivation_formsTree {text : String} {options : CompileOptions} {g : CompiledGrammar}
    (hg : CompiledGrammar.ofText text options = .ok g) {d : Derivation} {tokens : List Token}
    {tree : ParseTree} (h : ofDerivation g d tokens = .ok tree) :
    (∃ nodes, TreeArena.replay? g d tokens = some (.ok nodes) ∧
      TreeNode.records nodes = tree.records) ∧
    FormsTree tree.records ∧
    ∃ order lines, order.Perm (List.range tree.records.length) ∧
      (∀ visited leaves, Collects tree.records [0] visited leaves ↔
        visited = order ∧ leaves = tree.tokens) ∧
      (∀ visited shown, Draws tree.records "" [0] visited shown ↔
        visited = order ∧ shown = lines) ∧
      tree.drawing = String.join (lines.map (· ++ "\n")) := by
  have hname : g.name Code.epsilon = SymbolName.epsilon :=
    (Alphabet.name_of_base_prefix (CompiledGrammar.compiledBy_of_ofText hg).wellFormed.base).1
  have hreplay := TreeArena.map_replay? hname d tokens
  rw [h, Option.map_eq_some_iff] at hreplay
  obtain ⟨result, hresult, hmap⟩ := hreplay
  obtain ⟨nodes, rfl, hrecords⟩ := map_eq_ok.mp hmap
  have hstored : ∀ r ∈ recordsFrom 1 [(0, tree)], tree.records[r.number]? = some r :=
    fun r hr => getElem?_records hr
  have hcollects := collects_recordsFrom hstored
  have hdraws := @draws_recordsFrom tree.records 1 [0] [tree] rfl hstored ""
  have htokens : tokensAll [tree] = tree.tokens := List.append_nil _
  rw [List.map_singleton, List.map_singleton, htokens] at hcollects
  refine ⟨⟨nodes, hresult, hrecords⟩, tree.formsTree_records,
    (recordsFrom 1 [(0, tree)]).map NodeRecord.number, drawnLinesAll "" [tree], ?_,
    fun visited leaves => ?_, fun visited shown => ?_, tree.drawing_eq⟩
  · rw [length_records]
    exact tree.map_number_recordsFrom_root
  · constructor
    · exact hcollects.unique
    · rintro ⟨rfl, rfl⟩
      exact hcollects
  · constructor
    · exact hdraws.unique
    · rintro ⟨rfl, rfl⟩
      exact hdraws

/-- The derivation in which both nonterminals of a balanced word are expanded, the second of them by
the rule that writes the empty word. -/
def balancedOnce : Derivation :=
  ⟨[⟨0, "S", ["a", "EPSILON", "S", "b"]⟩, ⟨1, "S", ["EPSILON"]⟩], 2⟩

/-- The marker in the middle of the first right side is a terminal that takes a token; the one below
the second nonterminal is stored behind the terminal that follows this nonterminal. -/
theorem ofDerivation_formsTree_marked :
    ∃ g tree, CompiledGrammar.ofText CompiledGrammar.markedText {} = .ok g ∧
      ofDerivation g balancedOnce (CompiledGrammar.letterTokens ["a", "b"]) = .ok tree ∧
      tree.records.map NodeRecord.children = [[1, 2, 3, 4], [], [], [5], [], []] ∧
      FormsTree tree.records ∧
      ∃ order, order.Perm (List.range 6) ∧
        Collects tree.records [0] order (CompiledGrammar.letterTokens ["a", "b"]) := by
  have hrun : (CompiledGrammar.ofText CompiledGrammar.markedText {}).map (fun g =>
      (ofDerivation g balancedOnce (CompiledGrammar.letterTokens ["a", "b"])).map fun tree =>
        (tree.records.map NodeRecord.children, tree.tokens)) =
          .ok (.ok ([[1, 2, 3, 4], [], [], [5], [], []],
            CompiledGrammar.letterTokens ["a", "b"])) := by
    cbv
  obtain ⟨g, hg, hrun⟩ := map_eq_ok.mp hrun
  obtain ⟨tree, htree, hshown⟩ := map_eq_ok.mp hrun
  rw [Prod.mk.injEq] at hshown
  obtain ⟨hchildren, htokens⟩ := hshown
  obtain ⟨-, hforms, order, _, hperm, hcollects, -⟩ := ofDerivation_formsTree hg htree
  have hlength : tree.records.length = 6 := by simpa using congrArg List.length hchildren
  rw [hlength] at hperm
  exact ⟨g, tree, hg, htree, hchildren, hforms, order, hperm,
    (hcollects _ _).mpr ⟨rfl, htokens.symm⟩⟩

end ParseTree

end PredictiveFrontend

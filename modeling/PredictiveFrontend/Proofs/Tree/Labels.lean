import PredictiveFrontend.Proofs.Tree.Replay

/-!
# Labels of parse trees

In the tree of a parse every inner node is labelled with the left side of its rule and has the right
side, in order, below it. A leaf is labelled with the terminal that its token stands for: the replay
never compares the two, but it passes the leaves in the order in which the parser reads the tokens.
What a lenient parse leaves open, it leaves open behind everything that it has read. All this holds
for rules that write the empty word alone; a marker beside other symbols takes a token from them.
-/

namespace PredictiveFrontend

namespace ParseTree

/-! ### Leaves -/

mutual

/-- The leaves from left to right, each as a tree. -/
def leaves : ParseTree → List ParseTree
  | node _ _ children => leavesAll children
  | t => [t]

/-- The leaves of several trees. -/
def leavesAll : List ParseTree → List ParseTree
  | [] => []
  | t :: rest => leaves t ++ leavesAll rest

end

/-- The token at the root, if it is a leaf that holds one. -/
def token? : ParseTree → Option Token
  | leaf _ token => token
  | _ => none

/-- Whether the root is a nonterminal that was not expanded or a terminal without a token. -/
def isIncomplete : ParseTree → Bool
  | leaf _ token => token.isNone
  | unexpanded _ => true
  | _ => false

theorem leavesAll_append (ts us : List ParseTree) :
    leavesAll (ts ++ us) = leavesAll ts ++ leavesAll us := by
  induction ts with
  | nil => rfl
  | cons t rest ih => rw [List.cons_append, leavesAll, leavesAll, ih, List.append_assoc]

/-! ### Nodes -/

/-- A tree for a symbol: every symbol in it is labelled with its name, and below a node that is
expanded by a rule stands the right side of the rule, in order, or a single marker for a rule that
writes the empty word. -/
inductive IsTreeOf (g : CompiledGrammar) : Code → ParseTree → Prop where
  | leaf {c : Code} (hc : g.alphabet.isTerminal c = true) (token : Option Token) :
    IsTreeOf g c (leaf (g.name c) token)
  | unexpanded {c : Code} (hc : g.alphabet.isNonterminal c = true) :
    IsTreeOf g c (unexpanded (g.name c))
  | empty {r : Rule} (hr : g.rule? r.number = some r) (he : r.isEpsilon = true) :
    IsTreeOf g r.lhs (node (g.name r.lhs) r.number [emptyWord])
  | node {r : Rule} {children : List ParseTree} (hr : g.rule? r.number = some r)
    (he : r.isEpsilon = false) (hchildren : List.Forall₂ (IsTreeOf g) r.rhs children) :
    IsTreeOf g r.lhs (node (g.name r.lhs) r.number children)

variable {g : CompiledGrammar}

/-- The rule of a step is one for the nonterminal. -/
theorem ruleOfStep_eq_ok {nonterminal : Code} {step : Nat × Nat} {r : Rule} :
    ruleOfStep g nonterminal step = .ok r ↔ g.rule? step.1 = some r ∧ r.lhs = nonterminal := by
  unfold ruleOfStep
  cases g.rule? step.1 with
  | none => simp
  | some r' =>
    by_cases hlhs : r'.lhs = nonterminal
    · simp only [if_pos hlhs, Except.ok.injEq, Option.some.injEq]
      constructor
      · rintro rfl
        exact ⟨rfl, hlhs⟩
      · exact And.left
    · simp only [if_neg hlhs, reduceCtorEq, Option.some.injEq, false_iff, not_and]
      rintro rfl
      exact hlhs

/-- Whatever is grown, it grows into trees for the symbols. -/
theorem isTreeOf_of_grow (wf : g.toGrammar.WellFormed) {symbols : List Code}
    {steps : List (Nat × Nat)} {tokens : List Token} {growth : Growth steps.length}
    (h : grow g symbols steps tokens = .ok growth) :
    List.Forall₂ (IsTreeOf g) symbols growth.trees := by
  induction symbols, steps, tokens using grow.induct g with
  | case1 steps tokens =>
    rw [grow] at h
    cases h
    exact .nil
  | case2 steps tokens c others hc ih =>
    rw [grow_terminal _ _ _ hc] at h
    obtain ⟨rest, hrest, he⟩ := bind_eq_ok.mp h
    cases he
    exact .cons (.leaf hc _) (ih hrest)
  | case3 tokens c others hc ih =>
    rw [Bool.not_eq_true] at hc
    rw [grow_unexpanded _ _ hc] at h
    obtain ⟨rest, hrest, he⟩ := bind_eq_ok.mp h
    cases he
    exact .cons (.unexpanded (Alphabet.isTerminal_eq_false.mp hc)) (ih hrest)
  | case4 tokens c others hc step later ihbelow ihrest =>
    rw [Bool.not_eq_true] at hc
    rw [grow_node _ _ _ hc] at h
    obtain ⟨r, hr, h⟩ := bind_eq_ok.mp h
    obtain ⟨below, hbelow, h⟩ := bind_eq_ok.mp h
    obtain ⟨rest, hrest, he⟩ := bind_eq_ok.mp h
    cases he
    obtain ⟨hrule, rfl⟩ := ruleOfStep_eq_ok.mp hr
    have hnumber := wf.rule?_number (List.mem_of_getElem? hrule)
    refine .cons ?_ (ihrest below hrest)
    cases he : r.isEpsilon with
    | true => exact .empty hnumber he
    | false =>
      simp only [he, Bool.false_eq_true, if_false] at hbelow
      have hchildren := @ihbelow r below
      simp only [he, Bool.false_eq_true, dite_false] at hchildren
      exact .node hnumber he (hchildren hbelow)

/-! ### Leaves and tokens -/

/-- Leaves in line with what a parser reads: a token is at a leaf of the terminal that it stands
for, a strict parser leaves nothing open, and otherwise no token stands behind what is left open. -/
structure Aligned (g : CompiledGrammar) (parsing : ParseOptions) (leaves : List ParseTree) :
    Prop where
  label : ∀ t ∈ leaves, ∀ token ∈ t.token?,
    ∃ c, g.terminalOf parsing.generic token = .ok c ∧ t.symbol = g.name c
  complete : parsing.strict = true → ∀ t ∈ leaves, t.isIncomplete = false
  openLast : leaves.Pairwise fun t u => t.isIncomplete = true → u.token? = none

variable {parsing : ParseOptions}

namespace Aligned

variable {leaves : List ParseTree}

theorem nil : Aligned g parsing [] :=
  ⟨by simp, by simp, .nil⟩

/-- A leaf that is not left open may stand in front. -/
theorem cons {t : ParseTree} (ht : t.isIncomplete = false)
    (hlabel : ∀ token ∈ t.token?,
      ∃ c, g.terminalOf parsing.generic token = .ok c ∧ t.symbol = g.name c)
    (h : Aligned g parsing leaves) : Aligned g parsing (t :: leaves) := by
  constructor
  case label => exact List.forall_mem_cons.mpr ⟨hlabel, h.label⟩
  case complete => exact fun hstrict => List.forall_mem_cons.mpr ⟨ht, h.complete hstrict⟩
  case openLast =>
    refine List.pairwise_cons.mpr ⟨fun u _ hopen => ?_, h.openLast⟩
    rw [ht] at hopen
    cases hopen

/-- Where the parser is lenient, leaves without tokens may follow. -/
theorem of_forall_token?_eq_none (hstrict : parsing.strict = false)
    (h : ∀ t ∈ leaves, t.token? = none) : Aligned g parsing leaves := by
  constructor
  case label =>
    intro t ht token htoken
    rw [h t ht] at htoken
    cases htoken
  case complete =>
    intro hstrict'
    rw [hstrict] at hstrict'
    cases hstrict'
  case openLast => exact List.pairwise_of_forall_mem_list fun _ _ u hu _ => h u hu

end Aligned

/-- On some symbols a replay uses its rules up, with leaves in line with what the parser reads. -/
def Aligns (g : CompiledGrammar) (parsing : ParseOptions) (numbers : List Nat)
    (tokens : List Token) (symbols : List Code) : Prop :=
  ∀ first, ∃ growth, grow g symbols (numbers.zipIdx first) tokens = .ok growth ∧
    growth.steps = [] ∧ Aligned g parsing (leavesAll growth.trees)

namespace Aligns

variable {numbers : List Nat} {tokens : List Token} {others : List Code}

/-- Where the symbols end, the rules have ended. -/
theorem nil : Aligns g parsing [] tokens [] := by
  intro first
  rw [grow]
  exact ⟨_, rfl, rfl, .nil⟩

/-- A terminal that the parser reads holds the token that it is read for. -/
theorem read {c : Code} {token : Token} (hc : g.alphabet.isTerminal c = true)
    (htoken : g.terminalOf parsing.generic token = .ok c)
    (h : Aligns g parsing numbers tokens others) :
    Aligns g parsing numbers (token :: tokens) (c :: others) := by
  intro first
  obtain ⟨growth, hgrow, hsteps, haligned⟩ := h first
  rw [grow_terminal _ _ _ hc, List.tail_cons, hgrow]
  refine ⟨_, rfl, hsteps, haligned.cons rfl ?_⟩
  rintro _ ⟨⟩
  exact ⟨c, htoken, rfl⟩

/-- A nonterminal that the parser expands is expanded alike. -/
theorem expand {r : Rule} (hc : g.alphabet.isTerminal r.lhs = false)
    (hr : g.rule? r.number = some r)
    (h : Aligns g parsing numbers tokens ((if r.isEpsilon then [] else r.rhs) ++ others)) :
    Aligns g parsing (r.number :: numbers) tokens (r.lhs :: others) := by
  intro first
  obtain ⟨growth, hgrow, hsteps, haligned⟩ := h (first + 1)
  rw [grow_append] at hgrow
  obtain ⟨below, hbelow, hgrow⟩ := bind_eq_ok.mp hgrow
  obtain ⟨rest, hrest, he⟩ := bind_eq_ok.mp hgrow
  cases he
  have hrule : ruleOfStep g r.lhs (r.number, first) = .ok r := ruleOfStep_eq_ok.mpr ⟨hr, rfl⟩
  rw [List.zipIdx_cons, grow_node _ _ _ hc, hrule]
  refine ⟨_, bind_eq_ok.mpr ⟨r, rfl, bind_eq_ok.mpr ⟨below, hbelow,
    bind_eq_ok.mpr ⟨rest, hrest, rfl⟩⟩⟩, hsteps, ?_⟩
  simp only [leavesAll_append] at haligned
  cases hepsilon : r.isEpsilon with
  | false => exact haligned
  | true =>
    simp only [hepsilon, if_true] at hbelow
    rw [grow] at hbelow
    cases hbelow
    exact haligned.cons rfl (by rintro _ ⟨⟩)

/-- Without rules and tokens nothing that grows holds a token. -/
theorem exists_grow_nil (symbols : List Code) : ∃ growth, grow g symbols [] [] = .ok growth ∧
    ∀ t ∈ leavesAll growth.trees, t.token? = none := by
  induction symbols with
  | nil =>
    rw [grow]
    exact ⟨_, rfl, by simp [leavesAll]⟩
  | cons c others ih =>
    obtain ⟨growth, hgrow, htokens⟩ := ih
    cases hc : g.alphabet.isTerminal c with
    | true =>
      rw [grow_terminal _ _ _ hc, List.tail_nil, hgrow]
      exact ⟨_, rfl, List.forall_mem_cons.mpr ⟨rfl, htokens⟩⟩
    | false =>
      rw [grow_unexpanded _ _ hc, hgrow]
      exact ⟨_, rfl, List.forall_mem_cons.mpr ⟨rfl, htokens⟩⟩

/-- Where a lenient parser stops, everything is left open. -/
theorem stop (hstrict : parsing.strict = false) (symbols : List Code) :
    Aligns g parsing [] [] symbols := by
  intro first
  obtain ⟨growth, hgrow, htokens⟩ := exists_grow_nil (g := g) symbols
  exact ⟨growth, hgrow, List.length_eq_zero_iff.mp (Nat.le_zero.mp growth.steps_le),
    .of_forall_token?_eq_none hstrict htokens⟩

/-- A rule that writes the empty word alone leaves either nothing or its right side on the stack. -/
theorem expansion_eq {r : Rule} (h : Code.epsilon ∈ r.rhs → ∀ c ∈ r.rhs, c = Code.epsilon) :
    r.expansion = if r.isEpsilon then [] else r.rhs := by
  cases he : r.isEpsilon with
  | true => exact List.filter_eq_nil_iff.mpr fun c hc => by simpa using List.all_eq_true.mp he c hc
  | false =>
    refine List.filter_eq_self.mpr fun c hc => ?_
    rw [bne_iff_ne]
    rintro rfl
    have hall : r.isEpsilon = true := List.all_eq_true.mpr fun d hd => by simpa using h hc d hd
    rw [he] at hall
    cases hall

end Aligns

/-- From a state of the parser on, a replay is in line with what is left to be read: the symbols
above the end of input on the stack, with the tokens that the input in front of it stands for. -/
def AlignsFrom (g : CompiledGrammar) (parsing : ParseOptions) (numbers : List Nat)
    (s : Machine.State) : Prop :=
  ∀ symbols word tokens, s.stack = symbols ++ [Code.endOfInput] →
    s.input = word ++ [Code.endOfInput] → Code.endOfInput ∉ symbols → Code.endOfInput ∉ word →
    g.Spells parsing.generic tokens word → Aligns g parsing numbers tokens symbols

namespace AlignsFrom

variable {options : CompileOptions} {numbers : List Nat} {stack input : List Code}
  {applied : List Rule} {consumed : Nat}

/-- Above the end of input only a lenient parser stops, when the tokens have ended. -/
theorem of_accept {s : Machine.State} (h : Machine.move g parsing.strict s = .accept) :
    AlignsFrom g parsing [] s := by
  intro symbols word tokens hstack hinput _ hword hspells
  rcases Machine.move_eq_accept.mp h with hs | hi | ⟨c, stack, input, -, hi, -, hstrict⟩
  · rw [hstack] at hs
    exact absurd hs (List.append_ne_nil_of_right_ne_nil _ (List.cons_ne_nil _ _))
  · rw [hinput] at hi
    exact absurd hi (List.append_ne_nil_of_right_ne_nil _ (List.cons_ne_nil _ _))
  · rw [hinput] at hi
    cases word with
    | nil =>
      cases hspells
      exact .stop hstrict symbols
    | cons d word =>
      obtain ⟨rfl, -⟩ := List.cons.inj hi
      exact absurd (List.mem_cons_self ..) hword

/-- What stands alone on the stack is the end of input; where it is read, the tokens have ended. -/
theorem read_last (c : Code) :
    AlignsFrom g parsing [] ⟨[c], c :: input, applied, consumed⟩ := by
  intro symbols word tokens hstack hinput _ hword hspells
  cases symbols with
  | cons d symbols => simp at hstack
  | nil =>
    obtain rfl : c = Code.endOfInput := (List.cons.inj hstack).1
    cases word with
    | nil =>
      cases hspells
      exact .nil
    | cons d word =>
      obtain ⟨rfl, -⟩ := List.cons.inj hinput
      exact absurd (List.mem_cons_self ..) hword

/-- A terminal on top of others is read for a token. -/
theorem read {c : Code} (hc : g.alphabet.isTerminal c = true) (hstack : stack ≠ [])
    (h : AlignsFrom g parsing numbers ⟨stack, input, applied, consumed⟩) {consumed' : Nat} :
    AlignsFrom g parsing numbers ⟨c :: stack, c :: input, applied, consumed'⟩ := by
  intro symbols word tokens hsymbols hinput hend hword hspells
  cases symbols with
  | nil => exact absurd (List.cons.inj hsymbols).2 hstack
  | cons d symbols =>
    obtain ⟨rfl, rfl⟩ := List.cons.inj hsymbols
    rw [List.mem_cons, not_or] at hend
    cases hspells with
    | nil => exact absurd (List.cons.inj hinput).1.symm hend.1
    | cons htoken hspells =>
      obtain ⟨rfl, rfl⟩ := List.cons.inj hinput
      rw [List.mem_cons, not_or] at hword
      exact (h symbols _ _ rfl rfl hend.2 hword.2 hspells).read hc htoken

/-- The right side of a rule without markers is grown in place of its left side. -/
theorem expand (wf : g.toGrammar.WellFormed) {r : Rule} (hmem : r ∈ g.rules)
    (hepsilon : Code.epsilon ∈ r.rhs → ∀ c ∈ r.rhs, c = Code.epsilon) {later : List Rule}
    (h : AlignsFrom g parsing numbers ⟨r.expansion ++ stack, input, later, consumed⟩) :
    AlignsFrom g parsing (r.number :: numbers) ⟨r.lhs :: stack, input, applied, consumed⟩ := by
  have hnonterminal := wf.lhs_nonterminal r hmem
  intro symbols word tokens hsymbols hinput hend hword hspells
  cases symbols with
  | nil => exact absurd (List.cons.inj hsymbols).1 (wf.ne_endOfInput_of_isNonterminal hnonterminal)
  | cons d symbols =>
    obtain ⟨rfl, rfl⟩ := List.cons.inj hsymbols
    have hexpansion : Code.endOfInput ∉ r.expansion ++ symbols := by
      rw [List.mem_append, not_or]
      refine ⟨fun hm => wf.endOfInput_not_mem r hmem (List.mem_filter.mp hm).1, fun hm => ?_⟩
      exact hend (List.mem_cons_of_mem _ hm)
    have hbelow := h (r.expansion ++ symbols) word tokens (List.append_assoc ..).symm hinput
      hexpansion hword hspells
    rw [Aligns.expansion_eq hepsilon] at hbelow
    exact hbelow.expand (Alphabet.isTerminal_eq_false.mpr hnonterminal) (wf.rule?_number hmem)

/-- The replay of the rules that the parser applies on its way is in line with what it reads. -/
theorem of_reaches (hg : g.CompiledBy options)
    (hepsilon : ∀ r ∈ g.rules, Code.epsilon ∈ r.rhs → ∀ c ∈ r.rhs, c = Code.epsilon)
    {s s' : Machine.State} (h : Machine.Reaches g parsing.strict s s')
    (haccept : Machine.move g parsing.strict s' = .accept) :
    ∃ numbers, Machine.ReachesBy g parsing.strict numbers s s' ∧
      AlignsFrom g parsing numbers s := by
  induction h using Relation.ReflTransGen.head_induction_on with
  | refl => exact ⟨[], .refl _, of_accept haccept⟩
  | head ht hrest ih =>
    obtain ⟨numbers, hreach, h⟩ := ih
    cases ht with
    | read c stack input applied consumed hc =>
      refine ⟨numbers, (Machine.ReachesBy.read hc stack input applied consumed).trans hreach, ?_⟩
      by_cases hstack : stack = []
      · -- Behind the last symbol nothing is applied any more.
        subst hstack
        obtain rfl := Machine.Reaches.eq_of_stuck hrest (by simp [Machine.move])
        obtain rfl : numbers = [] := by simpa using hreach.2
        exact read_last c
      · exact h.read hc hstack
    | expand c t stack input applied consumed r hc ht hr =>
      obtain ⟨hmem, rfl, -⟩ := hg.of_predicted? hr
      exact ⟨r.number :: numbers,
        (Machine.ReachesBy.expand hc ht hr stack input applied consumed).trans hreach,
        h.expand hg.wellFormed hmem (hepsilon r hmem)⟩

end AlignsFrom

end ParseTree

namespace CompiledGrammar

variable {g : CompiledGrammar} {parsing : ParseOptions} {tokens : List Token} {d : Derivation}

/-- The tree of a parse is labelled as the grammar and the tokens say, if markers of the empty word
stand alone in right sides and no generic terminal is named like the end of input. It is a tree of
the start symbol, in which the right side of its rule stands below every node; a leaf that holds a
token has the terminal of this token; a strict parse leaves nothing open, and where any parse leaves
something open, no leaf behind it holds a token. -/
theorem labels_of_parse {text : String} {options : CompileOptions}
    (hg : ofText text options = .ok g)
    (hepsilon : ∀ r ∈ g.rules, Code.epsilon ∈ r.rhs → ∀ c ∈ r.rhs, c = Code.epsilon)
    (hgeneric : SymbolName.endOfInput ∉ parsing.generic.names)
    (h : g.parse parsing tokens = .ok d) :
    ∃ tree, ParseTree.ofDerivation g d tokens = .ok tree ∧ ParseTree.IsTreeOf g g.start tree ∧
      (∀ t ∈ tree.leaves, ∀ token ∈ t.token?,
        ∃ c, g.terminalOf parsing.generic token = .ok c ∧ t.symbol = g.name c) ∧
      (parsing.strict = true → ∀ t ∈ tree.leaves, t.isIncomplete = false) ∧
      tree.leaves.Pairwise fun t u => t.isIncomplete = true → u.token? = none := by
  have hc := compiledBy_of_ofText hg
  obtain ⟨word, n, s, hspells, hrun, rfl⟩ := exists_run_of_parse_eq_ok h
  obtain ⟨hreach, haccept⟩ := Machine.reaches_of_run_eq_accepted hrun
  obtain ⟨numbers, hreachBy, haligns⟩ := ParseTree.AlignsFrom.of_reaches hc hepsilon hreach haccept
  have hstart := hc.wellFormed.ne_endOfInput_of_isNonterminal hc.wellFormed.isNonterminal_start
  obtain ⟨growth, hgrow, hsteps, haligned⟩ := haligns [g.start] word (Token.significant tokens) rfl
    rfl (by simpa using hstart.symm) (hspells.endOfInput_not_mem hc.wellFormed hgeneric) hspells 0
  obtain ⟨tree, others, htree, hothers, htrees⟩ :=
    List.forall₂_cons_left_iff.mp (ParseTree.isTreeOf_of_grow hc.wellFormed hgrow)
  obtain rfl := List.forall₂_nil_left_iff.mp hothers
  rw [htrees, ParseTree.leavesAll, ParseTree.leavesAll, List.append_nil] at haligned
  refine ⟨tree, ?_, htree, haligned.label, haligned.complete, haligned.openLast⟩
  rw [ParseTree.ofDerivation, hreachBy.ruleNumbers_eq]
  exact ParseTree.ofRules_of_grow hgrow hsteps htrees

/-- The lenient parse of `a` stops in front of `S b`, which its tree leaves open behind the token;
the strict parse of `a b` leaves nothing open. -/
theorem labels_of_parse_balanced :
    ∃ g stopped whole, ofText balancedText {} = .ok g ∧
      (∃ d, g.parse ⟨false, {}⟩ (letterTokens ["a"]) = .ok d ∧
        ParseTree.ofDerivation g d (letterTokens ["a"]) = .ok stopped) ∧
      (∃ d, g.parse ⟨true, {}⟩ (letterTokens ["a", "b"]) = .ok d ∧
        ParseTree.ofDerivation g d (letterTokens ["a", "b"]) = .ok whole) ∧
      ParseTree.IsTreeOf g g.start stopped ∧
      (∀ t ∈ stopped.leaves, ∀ token ∈ t.token?,
        ∃ c, g.terminalOf {} token = .ok c ∧ t.symbol = g.name c) ∧
      (stopped.leaves.Pairwise fun t u => t.isIncomplete = true → u.token? = none) ∧
      ∀ t ∈ whole.leaves, t.isIncomplete = false := by
  have hrun : (ofText balancedText {}).map (fun g =>
      (decide (∀ r ∈ g.rules, Code.epsilon ∈ r.rhs → ∀ c ∈ r.rhs, c = Code.epsilon),
        (g.parse ⟨false, {}⟩ (letterTokens ["a"])).map Derivation.ruleNumbers,
        (g.parse ⟨true, {}⟩ (letterTokens ["a", "b"])).map Derivation.ruleNumbers)) =
          .ok (true, .ok [0], .ok [0, 2]) := by
    decide +kernel
  obtain ⟨g, hg, hrun⟩ := map_eq_ok.mp hrun
  simp only [Prod.mk.injEq, decide_eq_true_eq] at hrun
  obtain ⟨hepsilon, hlenient, hstrict⟩ := hrun
  obtain ⟨d, hd, -⟩ := map_eq_ok.mp hlenient
  obtain ⟨d', hd', -⟩ := map_eq_ok.mp hstrict
  obtain ⟨stopped, hstopped, htree, hlabel, -, hlast⟩ := labels_of_parse hg hepsilon (by decide) hd
  obtain ⟨whole, hwhole, -, -, hcomplete, -⟩ := labels_of_parse hg hepsilon (by decide) hd'
  exact ⟨g, stopped, whole, hg, ⟨d, hd, hstopped⟩, ⟨d', hd', hwhole⟩, htree, hlabel, hlast,
    hcomplete rfl⟩

end CompiledGrammar

end PredictiveFrontend

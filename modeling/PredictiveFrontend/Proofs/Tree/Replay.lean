import PredictiveFrontend.Proofs.Derivation.Soundness
import PredictiveFrontend.Report.Frontend

/-!
# Trees of parses

The replay of a derivation is another machine than the parser: it keeps the markers of the empty
word and lets each of them take a token like a terminal, and it stops where the rules end, not where
the input does. Yet it follows the parser. With the symbols on the parser's stack still to be grown,
it can apply exactly the rules that the parser is going to apply, and it never takes fewer tokens.
-/

namespace PredictiveFrontend

namespace ParseTree

@[simp] theorem tokensAll_append (ts us : List ParseTree) :
    tokensAll (ts ++ us) = tokensAll ts ++ tokensAll us := by
  induction ts with
  | nil => rfl
  | cons t rest ih => simp only [List.cons_append, tokensAll, ih, List.append_assoc]

@[simp] theorem rulesAll_append (ts us : List ParseTree) :
    rulesAll (ts ++ us) = rulesAll ts ++ rulesAll us := by
  induction ts with
  | nil => rfl
  | cons t rest ih => simp only [List.cons_append, rulesAll, ih, List.append_assoc]

variable {g : CompiledGrammar}

/-! ### Growing trees -/

section

variable {c : Code} (others : List Code) (steps : List (Nat × Nat)) (tokens : List Token)

theorem grow_terminal (hc : g.alphabet.isTerminal c = true) :
    grow g (c :: others) steps tokens = (do
      let rest ← grow g others steps tokens.tail
      return ⟨leaf (g.name c) tokens.head? :: rest.trees, rest.steps, rest.tokens,
        rest.steps_le⟩) := by
  rw [grow.eq_def]
  exact if_pos hc

theorem grow_unexpanded (hc : g.alphabet.isTerminal c = false) :
    grow g (c :: others) [] tokens = (do
      let rest ← grow g others [] []
      return ⟨unexpanded (g.name c) :: rest.trees, rest.steps, rest.tokens, rest.steps_le⟩) := by
  rw [grow, if_neg (by simp [hc])]

theorem grow_node (hc : g.alphabet.isTerminal c = false) (step : Nat × Nat) :
    grow g (c :: others) (step :: steps) tokens = (do
      let r ← ruleOfStep g c step
      let below ← grow g (if r.isEpsilon then [] else r.rhs) steps tokens
      let children := if r.isEpsilon then [emptyWord] else below.trees
      let rest ← grow g others below.steps below.tokens
      return ⟨node (g.name c) r.number children :: rest.trees, rest.steps, rest.tokens,
        Nat.le_succ_of_le (Nat.le_trans rest.steps_le below.steps_le)⟩) := by
  rw [grow, if_neg (by simp [hc])]

end

/-- What is grown below a node is the right side of its rule, apart from markers of the empty
word. -/
theorem sententialForm_grown (r : Rule) :
    Grammar.sententialForm (if r.isEpsilon then [] else r.rhs) = r.expansion := by
  cases hepsilon : r.isEpsilon with
  | false => rfl
  | true =>
    refine (List.filter_eq_nil_iff.mpr fun d hd => ?_).symm
    simpa using List.all_eq_true.mp hepsilon d hd

/-- Symbols are grown one after the other. -/
theorem grow_append (u v : List Code) (steps : List (Nat × Nat)) (tokens : List Token) :
    grow g (u ++ v) steps tokens = (do
      let front ← grow g u steps tokens
      let rest ← grow g v front.steps front.tokens
      return ⟨front.trees ++ rest.trees, rest.steps, rest.tokens,
        Nat.le_trans rest.steps_le front.steps_le⟩) := by
  induction u generalizing steps tokens with
  | nil =>
    rw [List.nil_append, grow]
    exact (bind_pure (grow g v steps tokens)).symm
  | cons c u ih =>
    rw [List.cons_append]
    cases hc : g.alphabet.isTerminal c with
    | true =>
      rw [grow_terminal _ _ _ hc, grow_terminal _ _ _ hc, ih]
      simp only [bind_assoc, pure_bind, List.cons_append]
    | false =>
      cases steps with
      | nil =>
        rw [grow_unexpanded _ _ hc, grow_unexpanded _ _ hc, ih]
        simp only [bind_assoc, pure_bind, List.cons_append]
      | cons step steps =>
        rw [grow_node _ _ _ hc, grow_node _ _ _ hc]
        simp only [ih, bind_assoc, pure_bind, List.cons_append]

/-- From every symbol one tree grows. -/
theorem length_trees {symbols : List Code} {steps : List (Nat × Nat)} {tokens : List Token}
    {growth : Growth steps.length} (h : grow g symbols steps tokens = .ok growth) :
    growth.trees.length = symbols.length := by
  induction symbols generalizing steps tokens with
  | nil =>
    rw [grow] at h
    cases h
    rfl
  | cons c others ih =>
    cases hc : g.alphabet.isTerminal c with
    | true =>
      rw [grow_terminal _ _ _ hc] at h
      obtain ⟨rest, hrest, he⟩ := bind_eq_ok.mp h
      cases he
      exact congrArg (· + 1) (ih hrest)
    | false =>
      cases steps with
      | nil =>
        rw [grow_unexpanded _ _ hc] at h
        obtain ⟨rest, hrest, he⟩ := bind_eq_ok.mp h
        cases he
        exact congrArg (· + 1) (ih hrest)
      | cons step steps =>
        rw [grow_node _ _ _ hc] at h
        obtain ⟨r, -, h⟩ := bind_eq_ok.mp h
        obtain ⟨below, -, h⟩ := bind_eq_ok.mp h
        obtain ⟨rest, hrest, he⟩ := bind_eq_ok.mp h
        cases he
        exact congrArg (· + 1) (ih hrest)

/-- The start symbol grows into one tree. -/
theorem ofRules_of_grow {numbers : List Nat} {tokens : List Token}
    {growth : Growth numbers.zipIdx.length} {tree : ParseTree}
    (hgrow : grow g [g.start] numbers.zipIdx (Token.significant tokens) = .ok growth)
    (hsteps : growth.steps = []) (htree : growth.trees = [tree]) :
    ofRules g numbers tokens = .ok tree := by
  simp only [ofRules, hgrow, bind, Except.bind, hsteps, htree]
  rfl

/-! ### Replays -/

/-- On some symbols a replay uses all its rules up: its nodes are expanded by them, in order, and
its leaves take so many tokens from the front. -/
def Replays (g : CompiledGrammar) (numbers : List Nat) (count : Nat) (symbols : List Code) : Prop :=
  ∀ first tokens, ∃ growth, grow g symbols (numbers.zipIdx first) tokens = .ok growth ∧
    growth.steps = [] ∧ rulesAll growth.trees = numbers ∧
    tokensAll growth.trees = tokens.take count

namespace Replays

variable {numbers : List Nat} {count : Nat} {others : List Code}

/-- A terminal takes the next token. -/
theorem terminal {c : Code} (hc : g.alphabet.isTerminal c = true)
    (h : Replays g numbers count others) : Replays g numbers (count + 1) (c :: others) := by
  intro first tokens
  obtain ⟨growth, hgrow, hsteps, hrules, htokens⟩ := h first tokens.tail
  rw [grow_terminal _ _ _ hc, hgrow]
  refine ⟨_, rfl, hsteps, hrules, ?_⟩
  cases tokens with
  | nil => simpa [tokensAll, ParseTree.tokens] using htokens
  | cons t tokens => simpa [tokensAll, ParseTree.tokens] using htokens

/-- A nonterminal is expanded by the first rule, and then its right side is grown. -/
theorem node {r : Rule} (hc : g.alphabet.isTerminal r.lhs = false)
    (hr : g.rule? r.number = some r)
    (h : Replays g numbers count ((if r.isEpsilon then [] else r.rhs) ++ others)) :
    Replays g (r.number :: numbers) count (r.lhs :: others) := by
  intro first tokens
  obtain ⟨growth, hgrow, hsteps, hrules, htokens⟩ := h (first + 1) tokens
  rw [grow_append] at hgrow
  obtain ⟨below, hbelow, hgrow⟩ := bind_eq_ok.mp hgrow
  obtain ⟨rest, hrest, he⟩ := bind_eq_ok.mp hgrow
  cases he
  have hrule : ruleOfStep g r.lhs (r.number, first) = .ok r := by
    simp only [ruleOfStep, hr, if_true]
  have hchildren : rulesAll (if r.isEpsilon then [emptyWord] else below.trees) =
      rulesAll below.trees ∧ tokensAll (if r.isEpsilon then [emptyWord] else below.trees) =
        tokensAll below.trees := by
    cases hepsilon : r.isEpsilon with
    | false => exact ⟨rfl, rfl⟩
    | true =>
      simp only [hepsilon, if_true] at hbelow
      rw [grow] at hbelow
      cases hbelow
      exact ⟨rfl, rfl⟩
  rw [List.zipIdx_cons, grow_node _ _ _ hc, hrule]
  refine ⟨_, bind_eq_ok.mpr ⟨r, rfl, bind_eq_ok.mpr ⟨below, hbelow,
    bind_eq_ok.mpr ⟨rest, hrest, rfl⟩⟩⟩, hsteps, ?_, ?_⟩
  · simpa [rulesAll, ParseTree.rules, hchildren.1] using hrules
  · simpa [tokensAll, ParseTree.tokens, hchildren.2] using htokens

/-- Without rules some of the leaves still take tokens, until a nonterminal is left as it is. -/
theorem exists_nil (symbols : List Code) : ∃ count, Replays g [] count symbols := by
  induction symbols with
  | nil =>
    exact ⟨0, fun _ tokens => ⟨⟨[], [], tokens, Nat.le_refl _⟩, by rw [grow]; rfl, rfl, rfl, rfl⟩⟩
  | cons c others ih =>
    obtain ⟨count, h⟩ := ih
    cases hc : g.alphabet.isTerminal c with
    | true => exact ⟨count + 1, h.terminal hc⟩
    | false =>
      refine ⟨0, fun first tokens => ?_⟩
      obtain ⟨growth, hgrow, hsteps, hrules, htokens⟩ := h first []
      refine ⟨_, (grow_unexpanded others tokens hc).trans (bind_eq_ok.mpr ⟨growth, hgrow, rfl⟩),
        hsteps, hrules, ?_⟩
      simpa [tokensAll, ParseTree.tokens] using htokens

/-- On one symbol it makes one tree. -/
theorem exists_ofRules (h : Replays g numbers count [g.start])
    (tokens : List Token) : ∃ tree, ofRules g numbers tokens = .ok tree ∧ tree.rules = numbers ∧
      tree.tokens = (Token.significant tokens).take count := by
  obtain ⟨growth, hgrow, hsteps, hrules, htokens⟩ := h 0 (Token.significant tokens)
  obtain ⟨tree, htree⟩ := List.length_eq_one_iff.mp (length_trees hgrow)
  refine ⟨tree, ?_, ?_, ?_⟩
  · exact ofRules_of_grow hgrow hsteps htree
  · simpa [htree, rulesAll] using hrules
  · simpa [htree, tokensAll] using htokens

end Replays

/-! ### Behind the parser -/

/-- Whatever symbols the stack of the parser holds above the end of input, in whatever places they
are mixed with markers of the empty word, a replay uses the rules up on them and takes at least so
many tokens. -/
def Shadows (g : CompiledGrammar) (numbers : List Nat) (least : Nat) (stack : List Code) : Prop :=
  ∀ symbols below, stack = Grammar.sententialForm symbols ++ below →
    (∀ c ∈ below, c = Code.endOfInput) → ∃ count, least ≤ count ∧ Replays g numbers count symbols

namespace Shadows

variable {options : CompileOptions} {numbers : List Nat} {least : Nat} {c : Code}
  {stack : List Code}

/-- What is on top of the stack is the end of input or the first symbol, behind markers. -/
private theorem cons (wf : g.toGrammar.WellFormed)
    (hend : c = Code.endOfInput → (∀ d ∈ stack, d = Code.endOfInput) →
      ∃ count, least ≤ count ∧ Replays g numbers count [])
    (hsymbol : ∀ rest below, stack = Grammar.sententialForm rest ++ below →
      (∀ d ∈ below, d = Code.endOfInput) →
      ∃ count, least ≤ count ∧ Replays g numbers count (c :: rest)) :
    Shadows g numbers least (c :: stack) := by
  intro symbols below hstack hbelow
  induction symbols with
  | nil =>
    obtain rfl : below = c :: stack := hstack.symm
    exact hend (hbelow c (List.mem_cons_self ..)) fun d hd => hbelow d (List.mem_cons_of_mem _ hd)
  | cons d rest ih =>
    by_cases hd : d = Code.epsilon
    · subst hd
      obtain ⟨count, hle, h⟩ := ih hstack
      exact ⟨count + 1, Nat.le_succ_of_le hle, h.terminal wf.isTerminal_epsilon⟩
    · rw [Grammar.sententialForm_cons, Grammar.sententialForm_eq_self (by simpa using Ne.symm hd)]
        at hstack
      obtain ⟨rfl, hrest⟩ := List.cons.inj hstack
      exact hsymbol rest below hrest hbelow

/-- A terminal that the parser reads takes a token. -/
theorem read (wf : g.toGrammar.WellFormed) (hc : g.alphabet.isTerminal c = true)
    (h : Shadows g numbers least stack) :
    Shadows g numbers (if c = Code.endOfInput then least else least + 1) (c :: stack) := by
  refine cons wf (fun he hstack => ?_) fun rest below hstack hbelow => ?_
  · rw [if_pos he]
    exact h [] stack rfl hstack
  · obtain ⟨count, hle, hrest⟩ := h rest below hstack hbelow
    refine ⟨count + 1, ?_, hrest.terminal hc⟩
    split
    · exact Nat.le_succ_of_le hle
    · exact Nat.succ_le_succ hle

/-- A nonterminal that the parser expands is expanded alike. -/
theorem expand (hg : g.CompiledBy options) {r : Rule} (hmem : r ∈ g.rules)
    (h : Shadows g numbers least (r.expansion ++ stack)) :
    Shadows g (r.number :: numbers) least (r.lhs :: stack) := by
  have hnonterminal := hg.wellFormed.lhs_nonterminal r hmem
  refine cons hg.wellFormed (fun he _ => ?_) fun rest below hstack hbelow => ?_
  · exact absurd he (hg.wellFormed.ne_endOfInput_of_isNonterminal hnonterminal)
  · obtain ⟨count, hle, hrest⟩ := h ((if r.isEpsilon then [] else r.rhs) ++ rest) below
      (by rw [Grammar.sententialForm_append, sententialForm_grown, List.append_assoc, hstack])
      hbelow
    exact ⟨count, hle, hrest.node (Alphabet.isTerminal_eq_false.mpr hnonterminal)
      (hg.wellFormed.rule?_number hmem)⟩

/-- The replay of the rules that the parser applies on its way shadows the stack it starts from. -/
theorem of_reaches (hg : g.CompiledBy options) {strict : Bool} {s s' : Machine.State}
    (h : Machine.Reaches g strict s s') :
    ∃ numbers least, s'.applied.map Rule.number = numbers.reverse ++ s.applied.map Rule.number ∧
      s'.consumed = s.consumed + least ∧ Shadows g numbers least s.stack := by
  induction h using Relation.ReflTransGen.head_induction_on with
  | refl =>
    refine ⟨[], 0, rfl, rfl, fun symbols _ _ _ => ?_⟩
    obtain ⟨count, h⟩ := Replays.exists_nil (g := g) symbols
    exact ⟨count, Nat.zero_le _, h⟩
  | head ht _ ih =>
    obtain ⟨numbers, least, happlied, hconsumed, h⟩ := ih
    cases ht with
    | read c stack input applied consumed hc =>
      refine ⟨numbers, _, happlied, ?_, h.read hg.wellFormed hc⟩
      simp only [hconsumed]
      split
      · rfl
      · exact Nat.add_right_comm consumed 1 least
    | expand c t stack input applied consumed r hc ht hr =>
      obtain ⟨hmem, rfl, -⟩ := hg.of_predicted? hr
      refine ⟨r.number :: numbers, least, ?_, hconsumed, h.expand hg hmem⟩
      rw [happlied, List.reverse_cons, List.append_assoc]
      rfl

end Shadows

end ParseTree

namespace CompiledGrammar

variable {g : CompiledGrammar} {parsing : ParseOptions} {tokens : List Token} {d : Derivation}

/-- A derivation that is the result of a parse grows into a tree over the same tokens: the rules of
its nodes are the steps, and the tokens at its leaves are the significant ones, unless a generic
terminal is named like the end of input. So no report on the tree of a source fails when the source
has a derivation. -/
theorem tree_of_parse {text : String} {options : CompileOptions} (hg : ofText text options = .ok g)
    (h : g.parse parsing tokens = .ok d) :
    ∃ tree, ParseTree.ofDerivation g d tokens = .ok tree ∧ tree.rules = d.ruleNumbers ∧
      (SymbolName.endOfInput ∉ parsing.generic.names →
        tree.tokens = Token.significant tokens) ∧
      ∀ source, Token.ofSource source = .ok tokens →
        (Frontend.mk g parsing).tree source = .ok tree ∧
        (Frontend.mk g parsing).report source .treeDrawing = .ok tree.drawing ∧
        (Frontend.mk g parsing).report source .treeJson = .ok tree.document.json := by
  have hc := compiledBy_of_ofText hg
  obtain ⟨word, n, s, hspells, hrun, rfl⟩ := exists_run_of_parse_eq_ok h
  obtain ⟨hreach, haccept⟩ := Machine.reaches_of_run_eq_accepted hrun
  obtain ⟨numbers, least, happlied, hconsumed, hshadows⟩ := ParseTree.Shadows.of_reaches hc hreach
  have hstart := hc.wellFormed.ne_epsilon_of_isNonterminal hc.wellFormed.isNonterminal_start
  obtain ⟨count, hle, hreplays⟩ := hshadows [g.start] [Code.endOfInput]
    (by rw [Grammar.sententialForm_eq_self (by simpa using hstart.symm)]; rfl) (by simp)
  have hnumbers := Machine.ReachesBy.ruleNumbers_eq ⟨hreach, happlied⟩ s.consumed
  obtain ⟨tree, htree, hrules, htokens⟩ := hreplays.exists_ofRules tokens
  have hderivation : ParseTree.ofDerivation g
      ⟨s.applied.reverse.map (DerivationStep.ofRule g.alphabet), s.consumed⟩ tokens = .ok tree := by
    rw [ParseTree.ofDerivation, hnumbers, htree]
  refine ⟨tree, hderivation, hrules.trans hnumbers.symm, fun hgeneric => ?_,
    fun source hsource => ?_⟩
  · have hend := hspells.endOfInput_not_mem hc.wellFormed hgeneric
    obtain ⟨-, -, hread, -⟩ := ((Machine.invariant_initial hc.wellFormed word).reaches hc hend
      hspells.isTerminal hreach).of_accept hc.wellFormed hend haccept
    rw [htokens]
    refine List.take_of_length_le ?_
    rw [hspells.length_eq, ← hread, hconsumed]
    simpa [Machine.State.initial] using hle
  · have htree : (Frontend.mk g parsing).tree source = .ok tree := by
      simp only [Frontend.tree, Frontend.derivation, Frontend.tokens, hsource, h, hderivation,
        bind, Except.bind, pure, Except.pure, Except.mapError]
    refine ⟨htree, ?_, ?_⟩
    · simp only [Frontend.report, htree, Except.map]
    · simp only [Frontend.report, htree, Except.map]

/-- Balanced letters, with a marker of the empty word in the middle of a right side. -/
def markedText : String :=
  "S -> a EPSILON S b | EPSILON"

/-- The marker takes the token `b`, so that none is left for the symbol behind it; the leaves hold
the tokens in order all the same. -/
theorem tree_of_parse_marked :
    ∃ g tokens d tree, ofText markedText {} = .ok g ∧ Token.ofSource "a b" = .ok tokens ∧
      g.parse ⟨true, {}⟩ tokens = .ok d ∧ ParseTree.ofDerivation g d tokens = .ok tree ∧
      tree.rules = [0, 1] ∧ tree.tokens = Token.significant tokens ∧
      (Frontend.mk g ⟨true, {}⟩).report "a b" .treeDrawing = .ok tree.drawing := by
  have hrun : (ofText markedText {}).map (fun g => (Token.ofSource "a b").map fun tokens =>
      (g.parse ⟨true, {}⟩ tokens).map Derivation.ruleNumbers) = .ok (.ok (.ok [0, 1])) := by
    decide +kernel
  obtain ⟨g, hg, hrun⟩ := map_eq_ok.mp hrun
  obtain ⟨tokens, htokens, hparse⟩ := map_eq_ok.mp hrun
  obtain ⟨d, hd, hnumbers⟩ := map_eq_ok.mp hparse
  obtain ⟨tree, htree, hrules, hleaves, hreport⟩ := tree_of_parse hg hd
  exact ⟨g, tokens, d, tree, hg, htokens, hd, htree, hrules.trans hnumbers, hleaves (by decide),
    (hreport "a b" htokens).2.1⟩

end CompiledGrammar

end PredictiveFrontend

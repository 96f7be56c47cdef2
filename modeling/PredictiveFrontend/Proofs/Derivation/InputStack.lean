import PredictiveFrontend.Proofs.Derivation.Soundness

/-!
# The end of input on the input stack

The input stack is the input of a parse with the index of each token. The end of input lies at its
bottom. A lexeme never puts a marker above it, but the generic terminals are not checked: one of
them may be named like the empty word or like the end of input. The machine takes a token that
stands for the end of input for the end of all tokens, and does not read what is left.
-/

namespace PredictiveFrontend

namespace CompiledGrammar

variable {g : CompiledGrammar} {generic : GenericTerminals} {tokens : List Token}

/-! ### Entries -/

/-- What lies on an input stack above the end of input: the terminals of a word, each with its
index, counted from some number on. -/
def entriesFrom (first : Nat) (word : List Code) : List (Code × Option Nat) :=
  (word.zipIdx first).map fun (c, i) => (c, some i)

@[simp] theorem length_entriesFrom (first : Nat) (word : List Code) :
    (entriesFrom first word).length = word.length := by
  simp [entriesFrom]

@[simp] theorem map_fst_entriesFrom (first : Nat) (word : List Code) :
    (entriesFrom first word).map Prod.fst = word := by
  simp [entriesFrom, Function.comp_def]

theorem getElem?_entriesFrom (first : Nat) (word : List Code) (i : Nat) :
    (entriesFrom first word)[i]? = (word[i]?).map fun c => (c, some (first + i)) := by
  simp [entriesFrom, Function.comp_def]

/-- The terminals of a word are pushed one by one, the last one first. -/
theorem foldrM_pushTerminal_eq_ok {first : Nat} {bottom stack : List (Code × Option Nat)} :
    (tokens.zipIdx first).foldrM (g.pushTerminal generic) bottom = .ok stack ↔
      ∃ word, g.Spells generic tokens word ∧ stack = entriesFrom first word ++ bottom := by
  induction tokens generalizing first stack with
  | nil =>
    constructor
    · intro h
      cases h
      exact ⟨[], .nil, rfl⟩
    · rintro ⟨word, hw, rfl⟩
      cases hw
      rfl
  | cons t rest ih =>
    simp only [List.zipIdx_cons, List.foldrM_cons, pushTerminal, bind_eq_ok, ih]
    constructor
    · rintro ⟨pushed, ⟨word, hw, rfl⟩, c, hc, he⟩
      cases he
      exact ⟨c :: word, .cons hc hw, rfl⟩
    · rintro ⟨word, hw, rfl⟩
      cases hw with
      | cons hc hrest => exact ⟨_, ⟨_, hrest, rfl⟩, _, hc, rfl⟩

/-- The terminals cannot be pushed exactly if the input cannot be read. -/
theorem foldrM_pushTerminal_eq_error {first : Nat} {bottom : List (Code × Option Nat)}
    {e : ParseError} :
    (tokens.zipIdx first).foldrM (g.pushTerminal generic) bottom = .error e ↔
      g.inputOf generic tokens = .error e := by
  induction tokens generalizing first with
  | nil =>
    constructor
    · intro h
      cases h
    · intro h
      cases h
  | cons t rest ih =>
    simp only [List.zipIdx_cons, List.foldrM_cons, pushTerminal, inputOf, bind_eq_error, ih,
      foldrM_pushTerminal_eq_ok, inputOf_eq_ok]
    refine or_congr_right ⟨?_, ?_⟩
    · rintro ⟨_, ⟨word, hw, -⟩, ht | ⟨c, -, hc⟩⟩
      · exact ⟨_, ⟨word, hw, rfl⟩, .inl ht⟩
      · cases hc
    · rintro ⟨_, ⟨word, hw, -⟩, ht | ⟨c, -, hc⟩⟩
      · exact ⟨_, ⟨word, hw, rfl⟩, .inl ht⟩
      · cases hc

/-- The input stack of tokens is their word with the indices, above the end of input. -/
theorem inputStack_eq_ok {stack : List (Code × Option Nat)} :
    g.inputStack generic tokens = .ok stack ↔ ∃ word, g.Spells generic tokens word ∧
      stack = entriesFrom 0 word ++ [(Code.endOfInput, none)] :=
  foldrM_pushTerminal_eq_ok

theorem inputStack_eq_error {e : ParseError} :
    g.inputStack generic tokens = .error e ↔ g.inputOf generic tokens = .error e :=
  foldrM_pushTerminal_eq_error

/-- The input of a parse is what the input stack holds, without the indices. -/
theorem inputOf_eq_map_inputStack (g : CompiledGrammar) (generic : GenericTerminals)
    (tokens : List Token) :
    g.inputOf generic tokens = (g.inputStack generic tokens).map (List.map Prod.fst) := by
  cases h : g.inputStack generic tokens with
  | error e => exact inputStack_eq_error.mp h
  | ok stack =>
    obtain ⟨word, hw, rfl⟩ := inputStack_eq_ok.mp h
    refine inputOf_eq_ok.mpr ⟨word, hw, ?_⟩
    rw [List.map_append, map_fst_entriesFrom]
    rfl

/-! ### Markers -/

/-- A token stands for a marker exactly if its lexeme spells no terminal and the generic terminal of
its kind is named like the marker. -/
theorem terminalOf_eq_marker (wf : g.toGrammar.WellFormed) {marker : Code}
    (hmarker : marker = Code.epsilon ∨ marker = Code.endOfInput) {t : Token} :
    g.terminalOf generic t = .ok marker ↔
      g.spelledTerminal? t.lexeme = none ∧ generic.nameFor? t.kind = some (g.name marker) := by
  have hlt : marker < g.alphabet.size := by
    rcases hmarker with rfl | rfl
    · exact wf.epsilon_lt
    · exact wf.endOfInput_lt
  have hterminal : g.alphabet.isTerminal marker = true := by
    rcases hmarker with rfl | rfl
    · exact wf.isTerminal_epsilon
    · exact wf.isTerminal_endOfInput
  rw [terminalOf_eq_ok_iff]
  constructor
  · rintro (hspelled | ⟨hspelled, hgeneric⟩)
    · obtain ⟨hepsilon, hend⟩ := ne_marker_of_spelledTerminal? hspelled
      exact absurd hmarker (not_or.mpr ⟨hepsilon, hend⟩)
    · obtain ⟨name, hname, hcode⟩ :=
        Option.bind_eq_some_iff.mp (Option.filter_eq_some_iff.mp hgeneric).1
      rw [CompiledGrammar.name, (Alphabet.name_of_code? hcode).2]
      exact ⟨hspelled, hname⟩
  · rintro ⟨hspelled, hname⟩
    refine Or.inr ⟨hspelled, Option.filter_eq_some_iff.mpr ⟨?_, hterminal⟩⟩
    rw [hname]
    exact Alphabet.code?_name wf.nodup hlt

/-- What the entries of an input stack are. -/
structure Stacks (g : CompiledGrammar) (generic : GenericTerminals) (tokens : List Token)
    (stack : List (Code × Option Nat)) : Prop where
  /-- There is one entry more than there are tokens. -/
  length_eq : stack.length = tokens.length + 1
  /-- At the bottom is the end of input, which belongs to no token. -/
  bottom : stack.getLast? = some (Code.endOfInput, none)
  /-- Counted from the top, the entry of a token is its terminal with its index. -/
  entry : ∀ (i : Nat) (t : Token), tokens[i]? = some t →
    ∃ c, g.terminalOf generic t = .ok c ∧ stack[i]? = some (c, some i)

theorem stacks_of_inputStack {stack : List (Code × Option Nat)}
    (h : g.inputStack generic tokens = .ok stack) : g.Stacks generic tokens stack := by
  obtain ⟨word, hw, rfl⟩ := inputStack_eq_ok.mp h
  have hlength : tokens.length = word.length := hw.length_eq
  refine ⟨by simp [hlength], by simp, fun i t ht => ?_⟩
  have hi := (List.getElem?_eq_some_iff.mp ht).1
  have hiword : i < word.length := hlength ▸ hi
  refine ⟨word[i], ?_, ?_⟩
  · rw [← (List.getElem?_eq_some_iff.mp ht).2]
    exact hw.get hi hiword
  · rw [List.getElem?_append_left (by simpa using hiword), getElem?_entriesFrom,
      List.getElem?_eq_getElem hiword, Option.map_some, Nat.zero_add]

end CompiledGrammar

/-! ### Input behind the end of input -/

namespace Machine

variable {g : CompiledGrammar} {strict : Bool} {word rest : List Code} {s s' : State}

/-- The machine with more input behind its own. -/
def State.followedBy (s : State) (rest : List Code) : State :=
  { s with input := s.input ++ rest }

/-- Whether the machine has nothing left to match when it has read its input. -/
def State.EndsWithInput (s : State) : Prop :=
  s.input = [] → s.stack = []

theorem Invariant.endsWithInput (h : Invariant g word s) : s.EndsWithInput := by
  intro hinput
  rcases h with ⟨read, unread, symbols, hu⟩ | he
  · rw [hu.input_eq] at hinput
    exact absurd hinput (List.append_ne_nil_of_right_ne_nil _ (List.cons_ne_nil _ _))
  · exact he.stack_eq

/-- A transition looks at the next terminal only. -/
theorem Transition.of_followedBy (hs : s.EndsWithInput)
    (ht : Transition g strict (s.followedBy rest) s') :
    ∃ s₁, Transition g strict s s₁ ∧ s' = s₁.followedBy rest := by
  obtain ⟨stack, input, applied, consumed⟩ := s
  cases input with
  | nil =>
    obtain rfl : stack = [] := hs rfl
    cases ht
  | cons t input =>
    cases ht with
    | read _ stack _ _ _ hc =>
      exact ⟨⟨stack, input, applied, _⟩, .read t stack input applied consumed hc, rfl⟩
    | expand c _ stack _ _ _ r hc ht hr =>
      exact ⟨_, .expand c t stack input applied consumed r hc ht hr, rfl⟩

/-- Where the input is accepted it is accepted without what follows. -/
theorem move_eq_accept_of_followedBy (hs : s.EndsWithInput)
    (ha : move g strict (s.followedBy rest) = .accept) : move g strict s = .accept := by
  obtain ⟨stack, input, applied, consumed⟩ := s
  cases input with
  | nil => exact move_eq_accept.mpr (.inr (.inl rfl))
  | cons t input =>
    refine move_eq_accept.mpr ?_
    rcases move_eq_accept.mp ha with hstack | hinput | ⟨c, stack', input', hstack, hinput, hc⟩
    · exact .inl hstack
    · cases hinput
    · obtain ⟨rfl, -⟩ := List.cons.inj hinput
      exact .inr (.inr ⟨c, stack', input, hstack, rfl, hc⟩)

/-- The machine gets no further with more input behind the end of input. -/
theorem Reaches.of_followedBy (hs : ∀ s₁, Reaches g strict s s₁ → s₁.EndsWithInput)
    (h : Reaches g strict (s.followedBy rest) s') :
    ∃ s₁, Reaches g strict s s₁ ∧ s' = s₁.followedBy rest := by
  induction h with
  | refl => exact ⟨s, .refl, rfl⟩
  | tail _ ht ih =>
    obtain ⟨s₁, hreach, rfl⟩ := ih
    obtain ⟨s₂, ht', he⟩ := ht.of_followedBy (hs s₁ hreach)
    exact ⟨s₂, hreach.tail ht', he⟩

/-- A machine that accepts has read all in front of the first end of input. -/
theorem consumed_of_accepted {options : CompileOptions} (hg : g.CompiledBy options)
    (hend : Code.endOfInput ∉ word) (hterminal : ∀ c ∈ word, g.alphabet.isTerminal c = true)
    (hreach : Reaches g strict (.initial g (word ++ Code.endOfInput :: rest)) s)
    (haccept : move g strict s = .accept) : s.consumed = word.length := by
  have hinvariant : ∀ s₁, Reaches g strict (.initial g (word ++ [Code.endOfInput])) s₁ →
      Invariant g word s₁ := fun s₁ h =>
    (invariant_initial hg.wellFormed word).reaches hg hend hterminal h
  have hfollowed : State.initial g (word ++ Code.endOfInput :: rest) =
      (State.initial g (word ++ [Code.endOfInput])).followedBy rest := by
    simp [State.initial, State.followedBy]
  -- What lies behind the first end of input is never looked at, so the invariant of the word holds.
  rw [hfollowed] at hreach
  obtain ⟨s₁, hreach₁, rfl⟩ := hreach.of_followedBy fun s₁ h => (hinvariant s₁ h).endsWithInput
  have haccept₁ := move_eq_accept_of_followedBy (hinvariant s₁ hreach₁).endsWithInput haccept
  obtain ⟨symbols, -, hconsumed, -⟩ :=
    (hinvariant s₁ hreach₁).of_accept hg.wellFormed hend haccept₁
  exact hconsumed

end Machine

namespace CompiledGrammar

variable {g : CompiledGrammar} {generic : GenericTerminals} {tokens : List Token}

/-- A successful parse has read the tokens in front of the first one that stands for the end of
input. -/
theorem exists_read_of_parse {options : CompileOptions} (hg : g.CompiledBy options)
    {parsing : ParseOptions} {d : Derivation} (h : g.parse parsing tokens = .ok d) :
    ∃ read rest, Token.significant tokens = read ++ rest ∧ d.tokensConsumed = read.length ∧
      (∀ t ∈ read, g.terminalOf parsing.generic t ≠ .ok Code.endOfInput) ∧
      ∀ t ∈ rest.head?, g.terminalOf parsing.generic t = .ok Code.endOfInput := by
  obtain ⟨word, n, s, hspells, hrun, rfl⟩ := exists_run_of_parse_eq_ok h
  obtain ⟨hreach, haccept⟩ := Machine.reaches_of_run_eq_accepted hrun
  by_cases hmem : Code.endOfInput ∈ word
  · obtain ⟨front, behind, rfl, hfront⟩ := List.eq_append_cons_of_mem hmem
    have hread : g.Spells parsing.generic ((Token.significant tokens).take front.length) front :=
      List.forall₂_take_append _ front _ hspells
    have hrest := List.forall₂_drop_append _ front _ hspells
    rw [List.append_assoc, List.cons_append] at hreach
    refine ⟨_, _, (List.take_append_drop front.length _).symm, ?_, ?_, ?_⟩
    · rw [hread.length_eq]
      exact Machine.consumed_of_accepted hg hfront hread.isTerminal hreach haccept
    · exact fun t ht => hread.terminalOf_ne hfront ht
    · obtain ⟨u, _, hc, -, he⟩ := List.forall₂_cons_right_iff.mp hrest
      rw [he]
      intro t ht
      cases ht
      exact hc
  · refine ⟨_, [], (List.append_nil _).symm, ?_, ?_, by simp⟩
    · rw [hspells.length_eq]
      exact Machine.consumed_of_accepted hg hmem hspells.isTerminal hreach haccept
    · exact fun t ht => hspells.terminalOf_ne hmem ht

/-- For every compiled grammar and every choice of generic terminals, the input stack holds the
terminals of the tokens with their indices above the end of input. Above the bottom a marker lies
only where a lexeme spells no terminal and the generic one of its kind has the name of the marker.
If there is no input stack, the last token that stands for no terminal is reported. A successful
parse has read the tokens in front of the first one that stands for the end of input, and so all of
them if there is none. -/
theorem inputStack_exact {text : String} {options : CompileOptions}
    (h : ofText text options = .ok g) (generic : GenericTerminals) (tokens : List Token) :
    (∀ stack, g.inputStack generic tokens = .ok stack →
      g.Stacks generic tokens stack ∧ ∀ t ∈ tokens,
        (g.terminalOf generic t = .ok Code.endOfInput ↔ g.spelledTerminal? t.lexeme = none ∧
          generic.nameFor? t.kind = some SymbolName.endOfInput) ∧
        (g.terminalOf generic t = .ok Code.epsilon ↔ g.spelledTerminal? t.lexeme = none ∧
          generic.nameFor? t.kind = some SymbolName.epsilon)) ∧
    (∀ e, g.inputStack generic tokens = .error e →
      ∃ before t after, tokens = before ++ t :: after ∧ g.terminalOf generic t = .error e ∧
        e = .unmapped t.lexeme t.kind t.line t.column ∧
        ∀ u ∈ after, ∃ c, g.terminalOf generic u = .ok c) ∧
    ∀ strict d, g.parse ⟨strict, generic⟩ tokens = .ok d →
      ∃ read rest, Token.significant tokens = read ++ rest ∧ d.tokensConsumed = read.length ∧
        (∀ t ∈ read, g.terminalOf generic t ≠ .ok Code.endOfInput) ∧
        ∀ t ∈ rest.head?, g.terminalOf generic t = .ok Code.endOfInput := by
  have hg := compiledBy_of_ofText h
  obtain ⟨hepsilon, hend⟩ := Alphabet.name_of_base_prefix hg.wellFormed.base
  refine ⟨fun stack hstack => ⟨stacks_of_inputStack hstack, fun t _ => ⟨?_, ?_⟩⟩, ?_, ?_⟩
  · rw [← hend]
    exact terminalOf_eq_marker hg.wellFormed (.inr rfl)
  · rw [← hepsilon]
    exact terminalOf_eq_marker hg.wellFormed (.inl rfl)
  · intro e he
    obtain ⟨before, t, after, word, htokens, hw, ht⟩ :=
      inputOf_eq_error.mp (inputStack_eq_error.mp he)
    refine ⟨before, t, after, htokens, ht, (terminalOf_eq_error.mp ht).2.2, fun u hu => ?_⟩
    obtain ⟨c, -, hc⟩ := hw.exists_mem_of_mem hu
    exact ⟨c, hc⟩
  · intro strict d hparse
    exact exists_read_of_parse hg hparse

/-- Every name stands for the end of input. -/
def namesAsEnd : GenericTerminals :=
  { identifier := SymbolName.endOfInput }

/-- The letter `a` is all that the grammar wants; behind it `x` stands for the end of input. -/
theorem exists_parse_namesAsEnd :
    ∃ g, ofText "S -> a" {} = .ok g ∧
      g.inputStack namesAsEnd (letterTokens ["a", "x"]) =
        .ok [(3, some 0), (Code.endOfInput, some 1), (Code.endOfInput, none)] ∧
      g.parse ⟨true, namesAsEnd⟩ (letterTokens ["a", "x"]) = .ok ⟨[⟨0, "S", ["a"]⟩], 1⟩ := by
  have hrun : (ofText "S -> a" {}).map (fun g =>
      (g.inputStack namesAsEnd (letterTokens ["a", "x"]),
        g.parse ⟨true, namesAsEnd⟩ (letterTokens ["a", "x"]))) =
      .ok (.ok [(3, some 0), (Code.endOfInput, some 1), (Code.endOfInput, none)],
        .ok ⟨[⟨0, "S", ["a"]⟩], 1⟩) := by
    decide +kernel
  obtain ⟨g, hg, hpair⟩ := map_eq_ok.mp hrun
  exact ⟨g, hg, Prod.mk.inj hpair⟩

/-- The letter `x` stands for the end of input, and a strict parse stops in front of it. -/
theorem inputStack_exact_name :
    ∃ g stack d read rest, ofText "S -> a" {} = .ok g ∧
      g.inputStack namesAsEnd (letterTokens ["a", "x"]) = .ok stack ∧
      g.Stacks namesAsEnd (letterTokens ["a", "x"]) stack ∧
      g.parse ⟨true, namesAsEnd⟩ (letterTokens ["a", "x"]) = .ok d ∧
      letterTokens ["a", "x"] = read ++ rest ∧ d.tokensConsumed = read.length ∧
      ∀ t ∈ rest.head?, g.terminalOf namesAsEnd t = .ok Code.endOfInput := by
  obtain ⟨g, hg, hstack, hparse⟩ := exists_parse_namesAsEnd
  obtain ⟨hok, -, hread⟩ := inputStack_exact hg namesAsEnd (letterTokens ["a", "x"])
  obtain ⟨read, rest, htokens, hconsumed, -, hrest⟩ := hread true _ hparse
  exact ⟨g, _, _, read, rest, hg, hstack, (hok _ hstack).1, hparse, htokens, hconsumed, hrest⟩

/-- An entry above the bottom of the input stack is the end of input, and a strict parse succeeds
with one of the two tokens unread. -/
theorem inputStack_ends_early :
    ∃ g stack d, ofText "S -> a" {} = .ok g ∧
      g.inputStack namesAsEnd (letterTokens ["a", "x"]) = .ok stack ∧
      stack[1]? = some (Code.endOfInput, some 1) ∧
      g.parse ⟨true, namesAsEnd⟩ (letterTokens ["a", "x"]) = .ok d ∧
      d.tokensConsumed < (Token.significant (letterTokens ["a", "x"])).length := by
  obtain ⟨g, hg, hstack, hparse⟩ := exists_parse_namesAsEnd
  exact ⟨g, _, _, hg, hstack, rfl, hparse, by decide⟩

end CompiledGrammar

end PredictiveFrontend

import PredictiveFrontend.Proofs.Derivation.Run
import PredictiveFrontend.Proofs.Grammar.Derives
import PredictiveFrontend.Proofs.Grammar.Prediction

/-!
# Parses are leftmost derivations

Whatever rules the table predicts, the terminals read so far and the symbols still on the stack make
up the form that the applied rules derive from the start symbol. The end of input stays at the
bottom of the stack and at the end of the input, so both run out together.
-/

namespace PredictiveFrontend

namespace Machine

variable {g : CompiledGrammar} {options : CompileOptions} {strict : Bool} {word : List Code}

/-- The form that the rules applied so far derive from the start symbol. -/
def State.derived (g : CompiledGrammar) (s : State) : Option (List Code) :=
  g.deriveLeftmost? [g.start] (s.applied.reverse.map Rule.number)

/-- The machine in the middle of a word: a part of it is read, and with the symbols on the stack,
above the end of input, it makes up the derived form. -/
structure Underway (g : CompiledGrammar) (word read unread symbols : List Code) (s : State) :
    Prop where
  /-- The word consists of what is read and what is not. -/
  word_eq : word = read ++ unread
  /-- The end of input is at the bottom of the stack. -/
  stack_eq : s.stack = symbols ++ [Code.endOfInput]
  /-- The end of input is read last. -/
  input_eq : s.input = unread ++ [Code.endOfInput]
  /-- The end of input is nowhere else on the stack. -/
  endOfInput_not_mem : Code.endOfInput ∉ symbols
  /-- The form that is derived. -/
  derived : s.derived g = some (read ++ symbols)
  /-- The terminals read are counted. -/
  consumed : s.consumed = read.length

/-- The machine behind the end of input, with the whole word derived. -/
structure Exhausted (g : CompiledGrammar) (word : List Code) (s : State) : Prop where
  stack_eq : s.stack = []
  input_eq : s.input = []
  derived : s.derived g = some word
  consumed : s.consumed = word.length

/-- What every transition keeps. -/
def Invariant (g : CompiledGrammar) (word : List Code) (s : State) : Prop :=
  (∃ read unread symbols, Underway g word read unread symbols s) ∨ Exhausted g word s

/-- At first nothing is read and the start symbol is derived. -/
theorem invariant_initial (wf : g.toGrammar.WellFormed) (word : List Code) :
    Invariant g word (.initial g (word ++ [Code.endOfInput])) := by
  have hne := wf.ne_endOfInput_of_isNonterminal wf.isNonterminal_start
  exact Or.inl ⟨[], word, [g.start], rfl, rfl, rfl, by simpa using Ne.symm hne, rfl, rfl⟩

/-- Reading a terminal of the word keeps the invariant. -/
theorem Underway.read {read unread symbols : List Code} {c : Code} {stack input : List Code}
    {applied : List Rule} {consumed : Nat} (hend : Code.endOfInput ∉ word)
    (h : Underway g word read unread symbols ⟨c :: stack, c :: input, applied, consumed⟩) :
    Invariant g word ⟨stack, input, applied,
      if c = Code.endOfInput then consumed else consumed + 1⟩ := by
  obtain ⟨hword, hstack, hinput, hsymbols, hderived, hconsumed⟩ := h
  simp only at hstack hinput hconsumed
  subst hconsumed
  cases symbols with
  | nil =>
    -- The end of input is on top, so it is also the terminal read, and nothing is left.
    obtain ⟨rfl, rfl⟩ := List.cons.inj hstack
    cases unread with
    | nil =>
      obtain ⟨-, rfl⟩ := List.cons.inj hinput
      rw [List.append_nil] at hword hderived
      subst hword
      exact Or.inr ⟨rfl, rfl, hderived, by simp⟩
    | cons d unread =>
      obtain ⟨rfl, -⟩ := List.cons.inj hinput
      exact absurd (hword ▸ List.mem_append_right _ (List.mem_cons_self ..)) hend
  | cons d symbols =>
    obtain ⟨rfl, rfl⟩ := List.cons.inj hstack
    rw [List.mem_cons, not_or] at hsymbols
    cases unread with
    | nil =>
      obtain ⟨rfl, -⟩ := List.cons.inj hinput
      exact absurd rfl hsymbols.1
    | cons d unread =>
      obtain ⟨rfl, rfl⟩ := List.cons.inj hinput
      refine Or.inl ⟨read ++ [c], unread, symbols, ?_, rfl, rfl, hsymbols.2, ?_, ?_⟩
      · rw [hword, List.append_assoc]
        rfl
      · rw [List.append_assoc]
        exact hderived
      · rw [if_neg (Ne.symm hsymbols.1), List.length_append]
        rfl

/-- Expanding a nonterminal keeps the invariant: it is the first one of the derived form. -/
theorem Underway.expand (hg : g.CompiledBy options) {read unread symbols : List Code} {c t : Code}
    {stack input : List Code} {applied : List Rule} {consumed : Nat} {r : Rule}
    (hc : g.alphabet.isTerminal c = false) (hr : g.predicted? c t = some r)
    (hread : ∀ c ∈ read, g.alphabet.isTerminal c = true)
    (h : Underway g word read unread symbols ⟨c :: stack, t :: input, applied, consumed⟩) :
    Invariant g word ⟨r.expansion ++ stack, t :: input, r :: applied, consumed⟩ := by
  obtain ⟨hword, hstack, hinput, hsymbols, hderived, hconsumed⟩ := h
  obtain ⟨hmem, rfl, -⟩ := hg.of_predicted? hr
  cases symbols with
  | nil =>
    have hn := hg.wellFormed.ne_endOfInput_of_isNonterminal (Alphabet.isTerminal_eq_false.mp hc)
    exact absurd (List.cons.inj hstack).1 hn
  | cons d symbols =>
    obtain ⟨rfl, rfl⟩ := List.cons.inj hstack
    rw [List.mem_cons, not_or] at hsymbols
    refine Or.inl ⟨read, unread, r.expansion ++ symbols, hword, ?_, hinput, ?_, ?_, hconsumed⟩
    · exact (List.append_assoc ..).symm
    · rw [List.mem_append, not_or]
      refine ⟨fun hm => ?_, hsymbols.2⟩
      exact hg.wellFormed.endOfInput_not_mem r hmem (List.mem_filter.mp hm).1
    · simp only [State.derived, List.reverse_cons, List.map_append] at hderived ⊢
      refine Grammar.deriveLeftmost?_append.mpr ⟨_, hderived, ?_⟩
      refine (Grammar.deriveLeftmost?_append_terminals hread).mpr ⟨_, ?_, rfl⟩
      exact Grammar.deriveLeftmost?_lhs hg.wellFormed hmem rfl

/-- Every transition keeps the invariant. -/
theorem Invariant.transition (hg : g.CompiledBy options) (hend : Code.endOfInput ∉ word)
    (hterminal : ∀ c ∈ word, g.alphabet.isTerminal c = true) {s s' : State}
    (h : Invariant g word s) (ht : Transition g strict s s') : Invariant g word s' := by
  rcases h with ⟨read, unread, symbols, hu⟩ | he
  · cases ht with
    | read c stack input applied consumed hc => exact hu.read hend
    | expand c t stack input applied consumed r hc ht hr =>
      refine hu.expand hg hc hr fun d hd => hterminal d ?_
      rw [hu.word_eq]
      exact List.mem_append_left _ hd
  · cases ht with
    | read => cases he.stack_eq
    | expand => cases he.stack_eq

theorem Invariant.reaches (hg : g.CompiledBy options) (hend : Code.endOfInput ∉ word)
    (hterminal : ∀ c ∈ word, g.alphabet.isTerminal c = true) {s s' : State}
    (h : Invariant g word s) (hr : Reaches g strict s s') : Invariant g word s' := by
  induction hr with
  | refl => exact h
  | tail _ ht ih => exact ih.transition hg hend hterminal ht

/-- Where the input is accepted the whole word is read. What is left on the stack in lenient mode
begins with a nonterminal. -/
theorem Invariant.of_accept (wf : g.toGrammar.WellFormed) (hend : Code.endOfInput ∉ word)
    {s : State} (h : Invariant g word s) (ha : move g strict s = .accept) :
    ∃ symbols, s.derived g = some (word ++ symbols) ∧ s.consumed = word.length ∧
      (strict = true → symbols = []) ∧
      (symbols = [] ∨ ∃ c rest, symbols = c :: rest ∧ g.alphabet.isNonterminal c = true) := by
  rcases h with ⟨read, unread, symbols, hword, hstack, hinput, -, hderived, hconsumed⟩ | he
  · rcases move_eq_accept.mp ha with hs | hi | ⟨c, stack, input, hs, hi, hc, rfl⟩
    · rw [hstack] at hs
      exact absurd hs (List.append_ne_nil_of_right_ne_nil _ (List.cons_ne_nil _ _))
    · rw [hinput] at hi
      exact absurd hi (List.append_ne_nil_of_right_ne_nil _ (List.cons_ne_nil _ _))
    · rw [hinput] at hi
      rw [hstack] at hs
      cases unread with
      | cons d unread =>
        obtain ⟨rfl, -⟩ := List.cons.inj hi
        exact absurd (hword ▸ List.mem_append_right _ (List.mem_cons_self ..)) hend
      | nil =>
        rw [List.append_nil] at hword
        subst hword
        cases symbols with
        | nil =>
          have hn := wf.ne_endOfInput_of_isNonterminal (Alphabet.isTerminal_eq_false.mp hc)
          exact absurd (List.cons.inj hs).1.symm hn
        | cons d symbols =>
          obtain ⟨rfl, -⟩ := List.cons.inj hs
          refine ⟨d :: symbols, hderived, hconsumed, by simp, ?_⟩
          exact Or.inr ⟨d, symbols, rfl, Alphabet.isTerminal_eq_false.mp hc⟩
  · refine ⟨[], ?_, he.consumed, fun _ => rfl, Or.inl rfl⟩
    rw [List.append_nil]
    exact he.derived

/-- The applied rules are rules of the grammar. -/
theorem Reaches.applied_subset (hg : g.CompiledBy options) {s s' : State}
    (h : Reaches g strict s s') (hs : ∀ r ∈ s.applied, r ∈ g.rules) :
    ∀ r ∈ s'.applied, r ∈ g.rules := by
  induction h with
  | refl => exact hs
  | tail _ ht ih =>
    cases ht with
    | read => exact ih
    | expand c t stack input applied consumed r hc ht hr =>
      intro r' hm
      rcases List.mem_cons.mp hm with rfl | hm
      · exact (hg.of_predicted? hr).1
      · exact ih r' hm

end Machine

namespace CompiledGrammar

variable {g : CompiledGrammar} {parsing : ParseOptions} {tokens : List Token} {d : Derivation}

/-- A successful parse is an accepted run on the word of the significant tokens. -/
theorem exists_run_of_parse_eq_ok (h : g.parse parsing tokens = .ok d) :
    ∃ word n s, g.Spells parsing.generic (Token.significant tokens) word ∧
      Machine.run g parsing.strict n (.initial g (word ++ [Code.endOfInput])) = .accepted s ∧
      d = ⟨s.applied.reverse.map (DerivationStep.ofRule g.alphabet), s.consumed⟩ := by
  rcases g.exists_spells_or_unmapped parsing tokens with ⟨word, hw⟩ | ⟨t, -, hparse⟩
  · rw [parse_eq_result hw] at h
    obtain ⟨s, hrun, hd⟩ := Machine.Outcome.result_eq_ok.mp h
    exact ⟨word, _, s, hw, hrun, hd⟩
  · rw [hparse] at h
    cases h

/-- A successful parse is a leftmost derivation from the start symbol to the word of all significant
tokens, followed by nothing in strict mode, and by nothing or a form that begins with a nonterminal
in lenient mode. Its steps are the applied rules. -/
theorem parse_sound {text : String} {options : CompileOptions} (hg : ofText text options = .ok g)
    (hgeneric : SymbolName.endOfInput ∉ parsing.generic.names)
    (h : g.parse parsing tokens = .ok d) :
    ∃ word symbols, g.Spells parsing.generic (Token.significant tokens) word ∧
      g.deriveLeftmost? [g.start] d.ruleNumbers = some (word ++ symbols) ∧
      d.tokensConsumed = (Token.significant tokens).length ∧
      (parsing.strict = true → symbols = []) ∧
      (symbols = [] ∨ ∃ c rest, symbols = c :: rest ∧ g.alphabet.isNonterminal c = true) ∧
      ∀ step ∈ d.steps, ∃ r, g.rule? step.rule = some r ∧
        step = DerivationStep.ofRule g.alphabet r := by
  have hc := compiledBy_of_ofText hg
  obtain ⟨word, n, s, hspells, hrun, rfl⟩ := exists_run_of_parse_eq_ok h
  have hend := hspells.endOfInput_not_mem hc.wellFormed hgeneric
  obtain ⟨hreach, haccept⟩ := Machine.reaches_of_run_eq_accepted hrun
  have hinvariant := (Machine.invariant_initial hc.wellFormed word).reaches hc hend
    hspells.isTerminal hreach
  obtain ⟨symbols, hderived, hconsumed, hstrict, hsymbols⟩ :=
    hinvariant.of_accept hc.wellFormed hend haccept
  refine ⟨word, symbols, hspells, ?_, ?_, hstrict, hsymbols, fun step hstep => ?_⟩
  · rw [Derivation.ruleNumbers_map_ofRule]
    exact hderived
  · rw [hspells.length_eq]
    exact hconsumed
  · obtain ⟨r, hr, rfl⟩ := List.mem_map.mp hstep
    have hmem := hreach.applied_subset hc (by simp [Machine.State.initial]) r
      (List.mem_reverse.mp hr)
    exact ⟨r, hc.wellFormed.rule?_number hmem, rfl⟩

/-- The run of a successful parse derives the whole word where it stops, and in strict mode nothing
else. -/
theorem exists_accepted_of_parse {options : CompileOptions} (hg : g.CompiledBy options)
    (hgeneric : SymbolName.endOfInput ∉ parsing.generic.names)
    (h : g.parse parsing tokens = .ok d) :
    ∃ word s symbols, g.Spells parsing.generic (Token.significant tokens) word ∧
      Machine.Reaches g parsing.strict (.initial g (word ++ [Code.endOfInput])) s ∧
      d = ⟨s.applied.reverse.map (DerivationStep.ofRule g.alphabet), s.consumed⟩ ∧
      s.derived g = some (word ++ symbols) ∧ (parsing.strict = true → symbols = []) := by
  obtain ⟨word, n, s, hspells, hrun, hd⟩ := exists_run_of_parse_eq_ok h
  have hend := hspells.endOfInput_not_mem hg.wellFormed hgeneric
  obtain ⟨hreach, haccept⟩ := Machine.reaches_of_run_eq_accepted hrun
  have hinvariant := (Machine.invariant_initial hg.wellFormed word).reaches hg hend
    hspells.isTerminal hreach
  obtain ⟨symbols, hderived, -, hstrict, -⟩ := hinvariant.of_accept hg.wellFormed hend haccept
  exact ⟨word, s, symbols, hspells, hreach, hd, hderived, hstrict⟩

/-- A strict parse that succeeds unfolds the start symbol into the word of the tokens, by the rules
of its steps. -/
theorem exists_unfolds_of_parse {options : CompileOptions} (hg : g.CompiledBy options)
    {generic : GenericTerminals} (hgeneric : SymbolName.endOfInput ∉ generic.names)
    (h : g.parse ⟨true, generic⟩ tokens = .ok d) :
    ∃ word rules, g.Spells generic (Token.significant tokens) word ∧
      g.Unfolds [g.start] rules word ∧ d.steps = rules.map (DerivationStep.ofRule g.alphabet) := by
  obtain ⟨word, s, symbols, hspells, hreach, rfl, hderived, hstrict⟩ :=
    exists_accepted_of_parse hg hgeneric h
  rw [hstrict rfl, List.append_nil] at hderived
  have hrules : ∀ r ∈ s.applied.reverse, r ∈ g.rules := fun r hr =>
    hreach.applied_subset hg (by simp [Machine.State.initial]) r (List.mem_reverse.mp hr)
  exact ⟨word, s.applied.reverse, hspells,
    Grammar.unfolds_of_deriveLeftmost? hg.wellFormed hrules hspells.isTerminal hderived, rfl⟩

/-- The rules that a parse applies tell the word that it reads. -/
theorem word_eq_of_ruleNumbers {options : CompileOptions} (hg : g.CompiledBy options)
    (hgeneric : SymbolName.endOfInput ∉ parsing.generic.names) {tokens' : List Token}
    {d' : Derivation} (h : g.parse parsing tokens = .ok d) (h' : g.parse parsing tokens' = .ok d')
    (hnumbers : d.ruleNumbers = d'.ruleNumbers)
    (hlength : (Token.significant tokens).length = (Token.significant tokens').length) :
    ∃ word, g.Spells parsing.generic (Token.significant tokens) word ∧
      g.Spells parsing.generic (Token.significant tokens') word := by
  obtain ⟨word, s, symbols, hspells, -, rfl, hderived, -⟩ := exists_accepted_of_parse hg hgeneric h
  obtain ⟨word', s', symbols', hspells', -, rfl, hderived', -⟩ :=
    exists_accepted_of_parse hg hgeneric h'
  rw [Derivation.ruleNumbers_map_ofRule, Derivation.ruleNumbers_map_ofRule] at hnumbers
  rw [Machine.State.derived, hnumbers] at hderived
  have hforms := Option.some.inj (hderived.symm.trans hderived')
  rw [hspells.length_eq, hspells'.length_eq] at hlength
  obtain ⟨rfl, -⟩ := List.append_inj hforms hlength
  exact ⟨word, hspells, hspells'⟩

/-- Balanced letters, and a left-recursive nonterminal without words. -/
def balancedText : String :=
  "S -> a S b | U c | EPSILON\nU -> U c"

/-- Tokens of one letter each, side by side. -/
def letterTokens (letters : List String) : List Token :=
  letters.zipIdx.map fun (letter, i) => ⟨i + 1, 1, i + 1, letter, .identifier⟩

/-- In lenient mode `a` alone is accepted, by a derivation that stops in front of `S b`. -/
theorem parse_sound_balanced :
    ∃ g d word symbols, ofText balancedText {} = .ok g ∧
      g.parse ⟨false, {}⟩ (letterTokens ["a"]) = .ok d ∧ d.ruleNumbers = [0] ∧
      g.Spells {} (letterTokens ["a"]) word ∧
      g.deriveLeftmost? [g.start] d.ruleNumbers = some (word ++ symbols) ∧ d.tokensConsumed = 1 ∧
      (symbols = [] ∨ ∃ c rest, symbols = c :: rest ∧ g.alphabet.isNonterminal c = true) := by
  have hrun : (ofText balancedText {}).map (fun g =>
      (g.parse ⟨false, {}⟩ (letterTokens ["a"])).map Derivation.ruleNumbers) = .ok (.ok [0]) := by
    decide +kernel
  obtain ⟨g, hg, hparse⟩ := map_eq_ok.mp hrun
  obtain ⟨d, hd, hnumbers⟩ := map_eq_ok.mp hparse
  obtain ⟨word, symbols, hword, hderived, hconsumed, -, hsymbols, -⟩ :=
    parse_sound hg (by decide) hd
  exact ⟨g, d, word, symbols, hg, hd, hnumbers, hword, hderived, hconsumed, hsymbols⟩

end CompiledGrammar

end PredictiveFrontend

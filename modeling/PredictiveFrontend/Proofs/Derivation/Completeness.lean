import PredictiveFrontend.Proofs.Derivation.Lookahead
import PredictiveFrontend.Proofs.Derivation.MoveLimit
import PredictiveFrontend.Proofs.Derivation.Soundness

/-!
# Every word of the language is parsed

If conflicts are refused and the FOLLOW sets are complete, a leftmost derivation of a word directs
the machine from one terminal to the next until the whole word is read. Since the machine leaves no
choice, a word has only one leftmost derivation, and the parse finds it.
-/

namespace PredictiveFrontend

namespace Machine

variable {g : CompiledGrammar} {options : CompileOptions} {strict : Bool}

section Directed

variable (hg : g.CompiledBy options) (hpolicy : options.conflictPolicy = .reject)
  (hstrategy : options.followStrategy = .fixedPoint)
include hg hpolicy hstrategy

/-- A leftmost derivation of a form that begins with the next terminal lets the machine read it. -/
theorem exists_reachesBy_read {t : Code} (hlt : t < g.alphabet.size)
    (ht : g.alphabet.isTerminal t = true) (hne : t ≠ Code.epsilon) (hend : t ≠ Code.endOfInput)
    {after form symbols : List Code} {numbers : List Nat}
    (h : g.Directed after (t :: form) numbers symbols) (input : List Code) (applied : List Rule)
    (consumed : Nat) :
    ∃ used left symbols' applied' consumed', numbers = used ++ left ∧
      g.Directed after form left symbols' ∧
      ReachesBy g strict used ⟨symbols ++ after, t :: input, applied, consumed⟩
        ⟨symbols' ++ after, input, applied', consumed'⟩ := by
  have hstrict : t = Code.endOfInput → strict = true := fun he => absurd he hend
  obtain ⟨used, left, symbols', applied', hnumbers, h', hhead, hreach⟩ :=
    exists_reachesBy_of_directed hg hpolicy hstrategy hlt ht hne hstrict h rfl after input applied
      consumed
  cases symbols' with
  | nil =>
    obtain ⟨-, he⟩ := Grammar.deriveLeftmost?_nil.mp h'.derives
    cases he
  | cons c rest =>
    cases hhead
    obtain ⟨form', hd, he⟩ := (Grammar.deriveLeftmost?_cons_terminal ht).mp h'.derives
    cases he
    have hread := hreach.trans (.read ht (rest ++ after) input applied' consumed)
    rw [List.append_nil] at hread
    exact ⟨used, left, rest, applied', _, hnumbers, ⟨hd, h'.followed.of_cons⟩, hread⟩

/-- A leftmost derivation of a form that begins with a word lets the machine read the word. -/
theorem exists_reachesBy_word {word : List Code} (hlt : ∀ t ∈ word, t < g.alphabet.size)
    (hterminal : ∀ t ∈ word, g.alphabet.isTerminal t = true) (hne : Code.epsilon ∉ word)
    (hend : Code.endOfInput ∉ word) {after form symbols : List Code} {numbers : List Nat}
    (h : g.Directed after (word ++ form) numbers symbols) (input : List Code)
    (applied : List Rule) (consumed : Nat) :
    ∃ used left symbols' applied' consumed', numbers = used ++ left ∧
      g.Directed after form left symbols' ∧
      ReachesBy g strict used ⟨symbols ++ after, word ++ input, applied, consumed⟩
        ⟨symbols' ++ after, input, applied', consumed'⟩ := by
  induction word generalizing symbols numbers applied consumed with
  | nil => exact ⟨[], numbers, symbols, applied, consumed, rfl, h, .refl _⟩
  | cons t word ih =>
    rw [List.mem_cons, not_or] at hne hend
    obtain ⟨used, left, symbols', applied', consumed', rfl, h', hreach⟩ :=
      exists_reachesBy_read hg hpolicy hstrategy (hlt t (List.mem_cons_self ..))
        (hterminal t (List.mem_cons_self ..)) (Ne.symm hne.1) (Ne.symm hend.1) h (word ++ input)
        applied consumed
    obtain ⟨used', left', symbols'', applied'', consumed'', rfl, h'', hreach'⟩ :=
      ih (fun d hm => hlt d (List.mem_cons_of_mem _ hm))
        (fun d hm => hterminal d (List.mem_cons_of_mem _ hm)) hne.2 hend.2 h' applied' consumed'
    refine ⟨used ++ used', left', symbols'', applied'', consumed'', ?_, h'', hreach.trans hreach'⟩
    rw [List.append_assoc]

/-- In strict mode a leftmost derivation of nothing empties the stack at the end of input. -/
theorem exists_reachesBy_end {symbols : List Code} {numbers : List Nat}
    (h : g.Directed [Code.endOfInput] [] numbers symbols) (applied : List Rule) (consumed : Nat) :
    ∃ applied' consumed', ReachesBy g true numbers
      ⟨symbols ++ [Code.endOfInput], [Code.endOfInput], applied, consumed⟩
      ⟨[], [], applied', consumed'⟩ := by
  have ht := hg.wellFormed.isTerminal_endOfInput
  obtain ⟨used, left, symbols', applied', rfl, h', hhead, hreach⟩ :=
    exists_reachesBy_of_directed hg hpolicy hstrategy hg.wellFormed.endOfInput_lt ht
      (by decide) (fun _ => rfl) h rfl [Code.endOfInput] [] applied consumed
  cases symbols' with
  | nil =>
    obtain ⟨rfl, -⟩ := Grammar.deriveLeftmost?_nil.mp h'.derives
    exact ⟨applied', _, hreach.trans (.read ht [] [] applied' consumed)⟩
  | cons c rest =>
    cases hhead
    obtain ⟨form, -, he⟩ := (Grammar.deriveLeftmost?_cons_terminal ht).mp h'.derives
    cases he

end Directed

/-- In lenient mode the input is accepted where it ends, if a leftmost derivation leads from the
symbols on the stack to nothing or to a form that begins with a nonterminal. -/
theorem exists_reaches_accept (wf : g.toGrammar.WellFormed) {symbols form : List Code}
    {numbers : List Nat} (hd : g.deriveLeftmost? symbols numbers = some form)
    (hform : form = [] ∨ ∃ c rest, form = c :: rest ∧ g.alphabet.isNonterminal c = true)
    (applied : List Rule) (consumed : Nat) :
    ∃ s, Reaches g false ⟨symbols ++ [Code.endOfInput], [Code.endOfInput], applied, consumed⟩ s ∧
      move g false s = .accept := by
  have ht := wf.isTerminal_endOfInput
  cases symbols with
  | nil =>
    refine ⟨⟨[], [], applied, consumed⟩, .single (.read _ _ _ _ _ ht), ?_⟩
    exact move_eq_accept.mpr (Or.inl rfl)
  | cons c rest =>
    refine ⟨_, .refl, move_eq_accept.mpr (Or.inr (Or.inr ⟨c, _, [], rfl, rfl, ?_, rfl⟩))⟩
    refine Bool.eq_false_iff.mpr fun hc => ?_
    obtain ⟨form', -, rfl⟩ := (Grammar.deriveLeftmost?_cons_terminal hc).mp hd
    rcases hform with he | ⟨d, rest', he, hd⟩
    · cases he
    · cases he
      rw [Alphabet.isTerminal_eq_false.mpr hd] at hc
      cases hc

end Machine

namespace CompiledGrammar

variable {g : CompiledGrammar} {generic : GenericTerminals} {tokens : List Token}
  {word : List Code}

/-- The end of input may follow the start symbol, so a leftmost derivation from the start symbol
directs the machine at first. -/
theorem directed_start (hg : g.CompiledBy ⟨.reject, .fixedPoint⟩) {form : List Code}
    {numbers : List Nat} (hd : g.deriveLeftmost? [g.start] numbers = some form) :
    g.Directed [Code.endOfInput] form numbers [g.start] :=
  ⟨hd, .pair hg.closed_first hg.wellFormed.isTerminal_endOfInput (by decide)
    (hg.closed_follow rfl).start⟩

/-- A leftmost derivation from the start symbol to a form that begins like the word of the tokens
lets the machine read the common beginning. -/
theorem exists_reachesBy_of_append {read rest : List Code}
    (hg : g.CompiledBy ⟨.reject, .fixedPoint⟩)
    (hw : g.Spells generic (Token.significant tokens) (read ++ rest))
    (hend : Code.endOfInput ∉ read) {form : List Code} {numbers : List Nat}
    (hd : g.deriveLeftmost? [g.start] numbers = some (read ++ form)) (strict : Bool) :
    ∃ used left symbols applied consumed, numbers = used ++ left ∧
      g.Directed [Code.endOfInput] form left symbols ∧
      Machine.ReachesBy g strict used (.initial g (read ++ (rest ++ [Code.endOfInput])))
        ⟨symbols ++ [Code.endOfInput], rest ++ [Code.endOfInput], applied, consumed⟩ := by
  have hstart := hg.wellFormed.ne_epsilon_of_isNonterminal hg.wellFormed.isNonterminal_start
  have hne := (Grammar.derives_of_deriveLeftmost? hd).epsilon_not_mem (by simpa using hstart.symm)
  exact Machine.exists_reachesBy_word hg rfl rfl
    (fun t ht => hw.lt_size t (List.mem_append_left _ ht))
    (fun t ht => hw.isTerminal t (List.mem_append_left _ ht))
    (fun hm => hne (List.mem_append_left _ hm)) hend (directed_start hg hd)
    (rest ++ [Code.endOfInput]) [] 0

/-- A leftmost derivation from the start symbol to a form that begins with the word of the tokens
lets the machine read this word. -/
theorem exists_reachesBy_of_spells (hg : g.CompiledBy ⟨.reject, .fixedPoint⟩)
    (hw : g.Spells generic (Token.significant tokens) word) (hend : Code.endOfInput ∉ word)
    {form : List Code} {numbers : List Nat}
    (hd : g.deriveLeftmost? [g.start] numbers = some (word ++ form)) (strict : Bool) :
    ∃ used left symbols applied consumed, numbers = used ++ left ∧
      g.Directed [Code.endOfInput] form left symbols ∧
      Machine.ReachesBy g strict used (.initial g (word ++ [Code.endOfInput]))
        ⟨symbols ++ [Code.endOfInput], [Code.endOfInput], applied, consumed⟩ := by
  have hspells : g.Spells generic (Token.significant tokens) (word ++ []) := by
    rwa [List.append_nil]
  exact exists_reachesBy_of_append hg hspells hend hd strict

/-- A leftmost derivation of the word makes the strict parse successful, with its rules. -/
theorem exists_parse_of_deriveLeftmost? (hg : g.CompiledBy ⟨.reject, .fixedPoint⟩)
    (hw : g.Spells generic (Token.significant tokens) word) (hend : Code.endOfInput ∉ word)
    {numbers : List Nat} (hd : g.deriveLeftmost? [g.start] numbers = some word) :
    ∃ d, g.parse ⟨true, generic⟩ tokens = .ok d ∧ d.ruleNumbers = numbers := by
  obtain ⟨used, left, symbols, applied, consumed, rfl, h, hreach⟩ :=
    exists_reachesBy_of_spells hg hw hend (by rwa [List.append_nil]) true
  obtain ⟨applied', consumed', hreach'⟩ :=
    Machine.exists_reachesBy_end hg rfl rfl h applied consumed
  obtain ⟨hreach, happlied⟩ := hreach.trans hreach'
  obtain ⟨n, hrun⟩ := hreach.exists_run_eq_accepted (Machine.move_eq_accept.mpr (Or.inl rfl))
  refine ⟨_, parse_eq_ok_of_run hg hw hrun, ?_⟩
  have hnumbers : applied'.map Rule.number = (used ++ left).reverse := by
    rw [happlied]
    exact List.append_nil _
  rw [Derivation.ruleNumbers_map_ofRule, List.map_reverse, hnumbers, List.reverse_reverse]

/-- The strict parse accepts every word that is derived from the start symbol, and finds the only
leftmost derivation of it. The lenient parse accepts every word that a leftmost derivation leads to,
alone or in front of a form that begins with a nonterminal. -/
theorem parse_complete {text : String} (h : ofText text ⟨.reject, .fixedPoint⟩ = .ok g)
    (hw : g.Spells generic (Token.significant tokens) word) (hend : Code.endOfInput ∉ word) :
    (g.Derives [g.start] word → ∃ d, g.parse ⟨true, generic⟩ tokens = .ok d ∧
      ∀ numbers, g.deriveLeftmost? [g.start] numbers = some word ↔ numbers = d.ruleNumbers) ∧
    ∀ numbers symbols, g.deriveLeftmost? [g.start] numbers = some (word ++ symbols) →
      (symbols = [] ∨ ∃ c rest, symbols = c :: rest ∧ g.alphabet.isNonterminal c = true) →
      ∃ d, g.parse ⟨false, generic⟩ tokens = .ok d := by
  have hg := compiledBy_of_ofText h
  constructor
  · intro hderives
    obtain ⟨numbers, hd⟩ :=
      Grammar.exists_deriveLeftmost?_of_derives hg.wellFormed hw.isTerminal hderives
    obtain ⟨d, hparse, hnumbers⟩ := exists_parse_of_deriveLeftmost? hg hw hend hd
    refine ⟨d, hparse, fun numbers' => ⟨fun hd' => ?_, ?_⟩⟩
    · obtain ⟨d', hparse', hnumbers'⟩ := exists_parse_of_deriveLeftmost? hg hw hend hd'
      rw [hparse] at hparse'
      cases hparse'
      exact hnumbers'.symm
    · rintro rfl
      rw [hnumbers]
      exact hd
  · intro numbers symbols hd hsymbols
    obtain ⟨used, left, stack, applied, consumed, -, hdirected, hreach⟩ :=
      exists_reachesBy_of_spells hg hw hend hd false
    obtain ⟨s, hreach', haccept⟩ :=
      Machine.exists_reaches_accept hg.wellFormed hdirected.derives hsymbols applied consumed
    obtain ⟨n, hrun⟩ :=
      Machine.Reaches.exists_run_eq_accepted (hreach.1.trans hreach') haccept
    exact ⟨_, parse_eq_ok_of_run hg hw hrun⟩

/-- The word `ab` of the balanced letters, whose symbols have the codes 3 and 4, has one leftmost
derivation. -/
theorem parse_complete_balanced :
    ∃ g, ofText balancedText ⟨.reject, .fixedPoint⟩ = .ok g ∧ g.Derives [g.start] [3, 4] ∧
      (∃ d, g.parse ⟨true, {}⟩ (letterTokens ["a", "b"]) = .ok d ∧
        ∀ numbers, g.deriveLeftmost? [g.start] numbers = some [3, 4] ↔ numbers = d.ruleNumbers) ∧
      ∃ d, g.parse ⟨false, {}⟩ (letterTokens ["a", "b"]) = .ok d := by
  have hrun : (ofText balancedText ⟨.reject, .fixedPoint⟩).map (fun g =>
      (g.inputOf {} (Token.significant (letterTokens ["a", "b"])),
        g.deriveLeftmost? [g.start] [0, 2])) = .ok (.ok [3, 4, Code.endOfInput], some [3, 4]) := by
    decide +kernel
  obtain ⟨g, hg, hpair⟩ := map_eq_ok.mp hrun
  obtain ⟨hinput, hd⟩ := Prod.mk.inj hpair
  obtain ⟨word, hw, hword⟩ := inputOf_eq_ok.mp hinput
  obtain rfl : [3, 4] = word := List.append_cancel_right hword
  obtain ⟨hstrict, hlenient⟩ := parse_complete hg hw (by decide)
  have hderives := Grammar.derives_of_deriveLeftmost? hd
  exact ⟨g, hg, hderives, hstrict hderives, hlenient [0, 2] [] hd (Or.inl rfl)⟩

end CompiledGrammar

end PredictiveFrontend

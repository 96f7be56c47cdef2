import PredictiveFrontend.Proofs.Derivation.Completeness

/-!
# Faults are found as early as possible

What the machine has read when it rejects a token begins a form of a leftmost derivation, and with
the rejected token it begins none: such a derivation would have let the machine read on. The rules
that the machine applied in vain below the token have read nothing, so the fault is at the token
itself, or behind the last token if the input ends too early.
-/

namespace PredictiveFrontend

/-- The fault is at the token of this index, or behind the last token if there are no more. -/
structure SyntaxFault.PointsTo (fault : SyntaxFault) (tokens : List Token) (index : Nat) : Prop where
  /-- The lexeme and the place are those of the token. -/
  token : ∀ t, tokens[index]? = some t →
    fault.found = some t.lexeme ∧ fault.line = t.line ∧ fault.column = t.column
  /-- At the end of input no lexeme is found. -/
  ended : index = tokens.length → fault.found = none
  /-- The place is behind the last token. -/
  behind : index = tokens.length → ∀ t, tokens.getLast? = some t →
    fault.line = t.line ∧ fault.column = t.endIndex + 1
  /-- Without tokens the place is the first one. -/
  first : tokens = [] → fault.line = 1 ∧ fault.column = 1

theorem SyntaxFault.pointsTo_after (tokens : List Token) (index : Nat) (expected : List String) :
    (SyntaxFault.after tokens index expected).PointsTo tokens index := by
  refine ⟨?_, ?_, ?_, ?_⟩
  · intro t ht
    simp [SyntaxFault.after, ht]
  · rintro rfl
    cases hlast : tokens.getLast? with
    | none => simp [SyntaxFault.after, hlast]
    | some t => simp [SyntaxFault.after, hlast]
  · rintro rfl t ht
    simp [SyntaxFault.after, ht]
  · rintro rfl
    simp [SyntaxFault.after]

/-- A leftmost derivation from the start symbol leads to a form that begins with these symbols. -/
def Grammar.Viable (g : Grammar) (symbols : List Code) : Prop :=
  ∃ numbers form, g.deriveLeftmost? [g.start] numbers = some (symbols ++ form)

namespace Machine

variable {g : CompiledGrammar} {strict : Bool} {word : List Code}

/-- Where a terminal is rejected something is left to be read. -/
theorem Invariant.of_reject {s : State} {expected : List String} (h : Invariant g word s)
    (hmove : move g strict s = .reject expected) :
    ∃ read unread symbols, Underway g word read unread symbols s := by
  rcases h with hu | he
  · exact hu
  · have haccept : move g strict s = .accept := move_eq_accept.mpr (Or.inl he.stack_eq)
    rw [hmove] at haccept
    cases haccept

/-- What is read begins a derived form. -/
theorem Underway.viable {read unread symbols : List Code} {s : State}
    (h : Underway g word read unread symbols s) : g.toGrammar.Viable read :=
  ⟨_, symbols, h.derived⟩

end Machine

namespace CompiledGrammar

variable {g : CompiledGrammar} {parsing : ParseOptions} {tokens : List Token}
  {word : List Code}

/-- A parse that meets a fault is a rejected run on the word of the significant tokens. -/
theorem exists_run_of_parse_eq_unexpected {fault : SyntaxFault}
    (h : g.parse parsing tokens = .error (.unexpected fault)) :
    ∃ word n s expected, g.Spells parsing.generic (Token.significant tokens) word ∧
      Machine.run g parsing.strict n (.initial g (word ++ [Code.endOfInput])) =
        .rejected s expected ∧
      fault = .after (Token.significant tokens) s.consumed expected := by
  rcases g.exists_spells_or_unmapped parsing tokens with ⟨word, hw⟩ | ⟨t, -, hparse⟩
  · rw [parse_eq_result hw] at h
    obtain ⟨s, expected, hrun, hfault⟩ := Machine.Outcome.result_eq_unexpected.mp h
    exact ⟨word, _, s, expected, hw, hrun, hfault⟩
  · rw [hparse] at h
    cases h

section Stuck

variable (hg : g.CompiledBy ⟨.reject, .fixedPoint⟩) (hend : Code.endOfInput ∉ word)
  {strict : Bool} {s : Machine.State}
  (hreach : Machine.Reaches g strict (.initial g (word ++ [Code.endOfInput])) s)
include hg hend hreach

/-- A machine does not stop before it has read what begins a derived form. -/
theorem length_input_le_of_viable {generic : GenericTerminals} {read rest : List Code}
    (hw : g.Spells generic (Token.significant tokens) word)
    (hstuck : ∀ s', Machine.move g strict s ≠ .next s') (hword : word = read ++ rest)
    (hviable : g.toGrammar.Viable read) : s.input.length ≤ rest.length + 1 := by
  obtain ⟨numbers, form, hd⟩ := hviable
  subst hword
  have hread : Code.endOfInput ∉ read := fun hm => hend (List.mem_append_left _ hm)
  obtain ⟨used, left, symbols, applied, consumed, -, -, hreach', -⟩ :=
    exists_reachesBy_of_append hg hw hread hd strict
  rw [← List.append_assoc] at hreach'
  -- The machine leaves no choice, so it comes by the state behind the common beginning.
  have hlength := (hreach'.to_stuck hreach hstuck).length_input_le
  rwa [List.length_append] at hlength

/-- A lenient machine does not reject the end of a word that begins a derived form, if the form ends
there or goes on with a nonterminal. -/
theorem move_ne_reject_of_lenient {generic : GenericTerminals}
    (hw : g.Spells generic (Token.significant tokens) word) (hlenient : strict = false)
    {numbers : List Nat} {symbols : List Code}
    (hd : g.deriveLeftmost? [g.start] numbers = some (word ++ symbols))
    (hsymbols : symbols = [] ∨
      ∃ c rest, symbols = c :: rest ∧ g.alphabet.isNonterminal c = true)
    (expected : List String) : Machine.move g strict s ≠ .reject expected := by
  subst hlenient
  intro hreject
  obtain ⟨used, left, stack, applied, consumed, -, hdirected, hword, -⟩ :=
    exists_reachesBy_of_spells hg hw hend hd false
  obtain ⟨s', hrest, haccept⟩ :=
    Machine.exists_reaches_accept hg.wellFormed hdirected.derives hsymbols applied consumed
  -- The machine stops in both states, so they are the same.
  have hreach' : Machine.Reaches g false s' s :=
    Machine.Reaches.to_stuck (hword.trans hrest) hreach (by simp [hreject])
  obtain rfl := hreach'.eq_of_stuck (by simp [haccept])
  rw [hreject] at haccept
  cases haccept

end Stuck

/-- For every grammar text that compiles without conflicts and with complete FOLLOW sets, a parse
that meets a fault has read the tokens in front of it, whose terminals begin a form of a leftmost
derivation. With the terminal of the token that the fault points to they begin none. If the fault is
behind the last token, the word of the tokens is not derived in strict mode, and in lenient mode no
leftmost derivation leads to the word followed by nothing or by a nonterminal. -/
theorem fault_exact {text : String} (h : ofText text ⟨.reject, .fixedPoint⟩ = .ok g)
    (hgeneric : SymbolName.endOfInput ∉ parsing.generic.names) {fault : SyntaxFault}
    (hfault : g.parse parsing tokens = .error (.unexpected fault)) :
    ∃ word k, g.Spells parsing.generic (Token.significant tokens) word ∧ k ≤ word.length ∧
      fault.PointsTo (Token.significant tokens) k ∧ g.toGrammar.Viable (word.take k) ∧
      (k < word.length → ¬g.toGrammar.Viable (word.take (k + 1))) ∧
      (k = word.length → parsing.strict = true → ¬g.Derives [g.start] word) ∧
      (k = word.length → parsing.strict = false → ∀ numbers symbols,
        (symbols = [] ∨ ∃ c rest, symbols = c :: rest ∧ g.alphabet.isNonterminal c = true) →
        g.deriveLeftmost? [g.start] numbers ≠ some (word ++ symbols)) := by
  have hg := compiledBy_of_ofText h
  obtain ⟨word, n, s, expected, hw, hrun, rfl⟩ := exists_run_of_parse_eq_unexpected hfault
  have hend := hw.endOfInput_not_mem hg.wellFormed hgeneric
  obtain ⟨hreach, hreject⟩ := Machine.reaches_of_run_eq_rejected hrun
  have hinvariant := (Machine.invariant_initial hg.wellFormed word).reaches hg hend
    hw.isTerminal hreach
  obtain ⟨read, unread, symbols, hu⟩ := hinvariant.of_reject hreject
  have hword : word = read ++ unread := hu.word_eq
  have hlength : word.length = read.length + unread.length := by
    rw [hword, List.length_append]
  refine ⟨word, read.length, hw, by omega, ?_, ?_, ?_, ?_, ?_⟩
  · rw [hu.consumed]
    exact SyntaxFault.pointsTo_after _ _ _
  · rw [hword, List.take_left]
    exact hu.viable
  · intro hlt hviable
    have hdrop : (word.drop (read.length + 1)).length + 1 = unread.length := by
      rw [List.length_drop]
      omega
    have hle := length_input_le_of_viable hg hend hreach hw (by simp [hreject])
      (List.take_append_drop (read.length + 1) word).symm hviable
    rw [hu.input_eq, List.length_append, List.length_singleton] at hle
    omega
  · intro _ hstrict hderives
    obtain ⟨numbers, hd⟩ :=
      Grammar.exists_deriveLeftmost?_of_derives hg.wellFormed hw.isTerminal hderives
    obtain ⟨d, hparse, -⟩ := exists_parse_of_deriveLeftmost? hg hw hend hd
    obtain ⟨strict, generic⟩ := parsing
    obtain rfl : strict = true := hstrict
    rw [hfault] at hparse
    cases hparse
  · intro _ hlenient numbers symbols hsymbols hd
    exact move_ne_reject_of_lenient hg hend hreach hw hlenient hd hsymbols expected hreject

/-- In `abb` the last letter is at fault: `ab` begins a derived form, and `abb` does not. -/
theorem fault_exact_balanced :
    ∃ g fault, ofText balancedText ⟨.reject, .fixedPoint⟩ = .ok g ∧
      g.parse ⟨false, {}⟩ (letterTokens ["a", "b", "b"]) = .error (.unexpected fault) ∧
      fault.found = some "b" ∧ fault.column = 3 ∧ g.toGrammar.Viable [3, 4] ∧
      ¬g.toGrammar.Viable [3, 4, 4] := by
  have hrun : (ofText balancedText ⟨.reject, .fixedPoint⟩).map (fun g =>
      (g.inputOf {} (Token.significant (letterTokens ["a", "b", "b"])),
        g.parse ⟨false, {}⟩ (letterTokens ["a", "b", "b"]))) =
      .ok (.ok [3, 4, 4, Code.endOfInput],
        .error (.unexpected ⟨some "b", 1, 3, ["$"]⟩)) := by
    decide +kernel
  obtain ⟨g, hg, hpair⟩ := map_eq_ok.mp hrun
  obtain ⟨hinput, hfault⟩ := Prod.mk.inj hpair
  obtain ⟨word, k, hw, hk, hpoints, hviable, hnot, -⟩ := fault_exact hg (by decide) hfault
  have hspelled := inputOf_eq_ok.mpr ⟨word, hw, rfl⟩
  rw [hinput] at hspelled
  obtain rfl : [3, 4, 4] = word := List.append_cancel_right (Except.ok.inj hspelled)
  obtain rfl : k = 2 := by
    have hcases : k = 0 ∨ k = 1 ∨ k = 2 ∨ k = 3 := by
      simp only [List.length_cons, List.length_nil] at hk
      omega
    rcases hcases with rfl | rfl | rfl | rfl
    · have hcolumn := (hpoints.token ⟨1, 1, 1, "a", .identifier⟩ (by decide)).2.2
      cases hcolumn
    · have hcolumn := (hpoints.token ⟨2, 1, 2, "b", .identifier⟩ (by decide)).2.2
      cases hcolumn
    · rfl
    · cases hpoints.ended (by decide)
  exact ⟨g, _, hg, hfault, rfl, rfl, hviable, hnot (by decide)⟩

end CompiledGrammar

end PredictiveFrontend

import PredictiveFrontend.Proofs.Derivation.Lockstep

/-!
# What strict mode adds

A lenient machine goes on only as a strict one does: they part where the input ends below a
nonterminal, which the lenient machine accepts. The whole word is read by then, so all that the
strict machine can still do is to make the rest of the stack vanish, or fail. A lenient machine that
fails has not come to such a place, and the strict one fails alike.
-/

namespace PredictiveFrontend

namespace Grammar

variable {g : Grammar}

/-- What is derived to the empty word vanishes part by part. -/
theorem Derives.nil_of_append (wf : g.WellFormed) {u v : List Code} (h : g.Derives (u ++ v) []) :
    g.Derives u [] := by
  obtain ⟨numbers, hd⟩ := exists_deriveLeftmost?_of_derives wf (by simp) h
  obtain ⟨first, second, x, y, -, hx, -, he⟩ := deriveLeftmost?_split (by simp) hd
  obtain ⟨rfl, -⟩ := List.append_eq_nil_iff.mp he.symm
  exact derives_of_deriveLeftmost? hx

/-- Every rule of a leftmost derivation to the empty word has a right side that vanishes. -/
theorem derives_nil_of_deriveLeftmost? (wf : g.WellFormed) {form : List Code} {rules : List Rule}
    (hrules : ∀ r ∈ rules, r ∈ g.rules)
    (h : g.deriveLeftmost? form (rules.map Rule.number) = some []) :
    ∀ r ∈ rules, g.Derives r.expansion [] := by
  induction rules generalizing form with
  | nil => simp
  | cons r rules ih =>
    obtain ⟨hr, hrest⟩ := List.forall_mem_cons.mp hrules
    obtain ⟨middle, hm, hn⟩ := deriveLeftmost?_cons.mp h
    refine List.forall_mem_cons.mpr ⟨?_, ih hrest hn⟩
    cases form with
    | nil => cases hm
    | cons c rest =>
      cases hc : g.alphabet.isTerminal c with
      | true =>
        -- A leading terminal stays, so nothing vanishes behind it.
        obtain ⟨next, -, he⟩ := (deriveLeftmost?_cons_terminal hc).mp h
        cases he
      | false =>
        obtain ⟨r', hr', -, rfl⟩ := (expandLeftmost?_cons_nonterminal hc).mp hm
        obtain rfl : r = r' := Option.some.inj ((wf.rule?_number hr).symm.trans hr')
        exact (derives_of_deriveLeftmost? hn).nil_of_append wf

end Grammar

namespace Machine

variable {g : CompiledGrammar} {options : CompileOptions} {strict : Bool}

/-- A lenient machine goes along with a strict one. -/
theorem goesAlong_lenient (g : CompiledGrammar) : GoesAlong g false g true := by
  intro s s' h
  cases h with
  | read c stack input applied consumed hc => exact .read c stack input applied consumed hc
  | expand c t stack input applied consumed r hc ht hr =>
    exact .expand c t stack input applied consumed r hc (fun _ => rfl) hr

/-- What a lenient machine rejects, a strict one rejects alike. -/
theorem move_strict_of_reject {s : State} {expected : List String}
    (h : move g false s = .reject expected) : move g true s = .reject expected := by
  obtain ⟨stack, input, applied, consumed⟩ := s
  cases stack with
  | nil => cases h
  | cons c stack =>
    cases input with
    | nil => cases h
    | cons t input =>
      cases hc : g.alphabet.isTerminal c with
      | true => simpa [move, hc] using h
      | false =>
        by_cases ht : t = Code.endOfInput
        · simp [move, hc, ht] at h
        · simpa [move, hc, ht] using h

/-- Later rules are put in front of the rules applied so far. -/
theorem Reaches.exists_applied_eq {s s' : State} (h : Reaches g strict s s') :
    ∃ later, s'.applied = later ++ s.applied := by
  induction h with
  | refl => exact ⟨[], rfl⟩
  | tail _ ht ih =>
    obtain ⟨later, hlater⟩ := ih
    cases ht with
    | read => exact ⟨later, hlater⟩
    | expand _ _ _ _ _ _ r => exact ⟨r :: later, congrArg (r :: ·) hlater⟩

/-- Where a strict machine has accepted a word, a lenient one has accepted it before. All that the
strict one does from there on is to let symbols vanish. -/
theorem Reaches.exists_later (hg : g.CompiledBy options) {word : List Code}
    (hend : Code.endOfInput ∉ word) (hterminal : ∀ c ∈ word, g.alphabet.isTerminal c = true)
    {s s' : State} (hreach : Reaches g true (.initial g (word ++ [Code.endOfInput])) s)
    (haccept : move g true s = .accept)
    (hreach' : Reaches g false (.initial g (word ++ [Code.endOfInput])) s')
    (haccept' : move g false s' = .accept) :
    s'.consumed = s.consumed ∧ ∃ later, s.applied = later ++ s'.applied ∧
      ∀ r ∈ later, r ∈ g.rules ∧ g.Derives r.expansion [] := by
  have hinitial := invariant_initial hg.wellFormed word
  obtain ⟨_, hderived, hconsumed, hempty, -⟩ :=
    (hinitial.reaches hg hend hterminal hreach).of_accept hg.wellFormed hend haccept
  obtain ⟨symbols, hderived', hconsumed', -, -⟩ :=
    (hinitial.reaches hg hend hterminal hreach').of_accept hg.wellFormed hend haccept'
  refine ⟨hconsumed'.trans hconsumed.symm, ?_⟩
  rw [hempty rfl, List.append_nil] at hderived
  -- The strict machine comes by the state in which the lenient one stops.
  have hrest : Reaches g true s' s :=
    ((goesAlong_lenient g).reaches hreach').to_stuck hreach (by simp [haccept])
  obtain ⟨later, hlater⟩ := hrest.exists_applied_eq
  have hrules : ∀ r ∈ later.reverse, r ∈ g.rules := fun r hr =>
    hreach.applied_subset hg (by simp [State.initial]) r
      (hlater ▸ List.mem_append_left _ (List.mem_reverse.mp hr))
  have hvanish : g.deriveLeftmost? symbols (later.reverse.map Rule.number) = some [] := by
    rw [State.derived, hlater, List.reverse_append, List.map_append,
      Grammar.deriveLeftmost?_append] at hderived
    obtain ⟨form, hform, hrest⟩ := hderived
    obtain rfl : form = word ++ symbols := Option.some.inj (hform.symm.trans hderived')
    obtain ⟨next, hnext, he⟩ := (Grammar.deriveLeftmost?_append_terminals hterminal).mp hrest
    obtain rfl : next = [] := List.self_eq_append_right.mp he
    exact hnext
  have hall := Grammar.derives_nil_of_deriveLeftmost? hg.wellFormed hrules hvanish
  refine ⟨later, hlater, fun r hr => ?_⟩
  have hr' : r ∈ later.reverse := List.mem_reverse.mpr hr
  exact ⟨hrules r hr', hall r hr'⟩

end Machine

namespace CompiledGrammar

variable {g : CompiledGrammar} {options : CompileOptions} {generic : GenericTerminals}
  {tokens : List Token}

/-- A lenient parse that fails lets the strict one fail alike. -/
theorem parse_strict_eq_error (hg : g.CompiledBy options) {e : ParseError}
    (h : g.parse ⟨false, generic⟩ tokens = .error e) :
    g.parse ⟨true, generic⟩ tokens = .error e := by
  cases hinput : g.inputOf generic (Token.significant tokens) with
  | error e' =>
    rw [parse_eq_error_of_inputOf hinput] at h ⊢
    exact h
  | ok input =>
    obtain ⟨word, hw, -⟩ := inputOf_eq_ok.mp hinput
    have hwstrict : g.Spells (⟨true, generic⟩ : ParseOptions).generic _ word := hw
    have hwlenient : g.Spells (⟨false, generic⟩ : ParseOptions).generic _ word := hw
    rw [parse_eq_result hwlenient] at h
    cases hrun : Machine.run g false (Machine.moveLimit g (word ++ [Code.endOfInput]))
        (.initial g (word ++ [Code.endOfInput])) with
    | accepted s =>
      rw [hrun] at h
      cases h
    | rejected s expected =>
      obtain ⟨hreach, hreject⟩ := Machine.reaches_of_run_eq_rejected hrun
      obtain ⟨n, hn⟩ := ((Machine.goesAlong_lenient g).reaches hreach).exists_run_eq_rejected
        (Machine.move_strict_of_reject hreject)
      rw [parse_eq_result_of_run hg hwstrict (n := n) (by rw [hn]; rfl), hn, ← h, hrun]
    | unfinished s =>
      rw [hrun] at h
      cases h
      rw [parse_eq_unbounded_iff hg hwstrict]
      refine fun n => Bool.eq_false_iff.mpr fun hend => ?_
      -- The lenient machine would have come to its end as well, within the limit.
      have hlimit := Machine.isFinished_run_moveLimit hg
        ((Machine.goesAlong_lenient g).isFinished_run hend)
      rw [hrun] at hlimit
      cases hlimit

/-- A strict parse that succeeds repeats the lenient one, and goes on with steps that let symbols
vanish. -/
theorem exists_parse_lenient_of_strict (hg : g.CompiledBy options)
    (hgeneric : SymbolName.endOfInput ∉ generic.names) {d : Derivation}
    (h : g.parse ⟨true, generic⟩ tokens = .ok d) :
    ∃ d' later, g.parse ⟨false, generic⟩ tokens = .ok d' ∧
      d'.tokensConsumed = d.tokensConsumed ∧ d.steps = d'.steps ++ later ∧
      ∀ step ∈ later, ∃ r, g.rule? step.rule = some r ∧
        step = DerivationStep.ofRule g.alphabet r ∧ g.Derives r.expansion [] := by
  cases hlenient : g.parse ⟨false, generic⟩ tokens with
  | error e =>
    rw [parse_strict_eq_error hg hlenient] at h
    cases h
  | ok d' =>
    obtain ⟨word, n, s, hw, hrun, rfl⟩ := exists_run_of_parse_eq_ok h
    obtain ⟨word', n', s', hw', hrun', rfl⟩ := exists_run_of_parse_eq_ok hlenient
    obtain rfl : word = word' := hw.unique hw'
    obtain ⟨hreach, haccept⟩ := Machine.reaches_of_run_eq_accepted hrun
    obtain ⟨hreach', haccept'⟩ := Machine.reaches_of_run_eq_accepted hrun'
    obtain ⟨hconsumed, later, hlater, hvanish⟩ := hreach.exists_later hg
      (hw.endOfInput_not_mem hg.wellFormed hgeneric) hw.isTerminal haccept hreach' haccept'
    refine ⟨_, later.reverse.map (DerivationStep.ofRule g.alphabet), rfl, hconsumed, ?_, ?_⟩
    · rw [← List.map_append, ← List.reverse_append, ← hlater]
    · intro step hstep
      obtain ⟨r, hr, rfl⟩ := List.mem_map.mp hstep
      obtain ⟨hrule, hnil⟩ := hvanish r (List.mem_reverse.mp hr)
      exact ⟨r, hg.wellFormed.rule?_number hrule, rfl, hnil⟩

/-- A strict parse that succeeds repeats the lenient one and goes on only with rules whose right
sides derive the empty word. A lenient parse that fails lets the strict one fail alike. -/
theorem strict_extends_lenient {text : String} (hg : ofText text options = .ok g)
    (hgeneric : SymbolName.endOfInput ∉ generic.names) (tokens : List Token) :
    (∀ d, g.parse ⟨true, generic⟩ tokens = .ok d →
      ∃ d' later, g.parse ⟨false, generic⟩ tokens = .ok d' ∧
        d'.tokensConsumed = d.tokensConsumed ∧ d.steps = d'.steps ++ later ∧
        ∀ step ∈ later, ∃ r, g.rule? step.rule = some r ∧
          step = DerivationStep.ofRule g.alphabet r ∧ g.Derives r.expansion []) ∧
      ∀ e, g.parse ⟨false, generic⟩ tokens = .error e →
        g.parse ⟨true, generic⟩ tokens = .error e := by
  have hc := compiledBy_of_ofText hg
  constructor
  · intro d h
    exact exists_parse_lenient_of_strict hc hgeneric h
  · intro e h
    exact parse_strict_eq_error hc h

/-- An `a` and then any number of `b`. -/
def tailText : String :=
  "S -> a R\nR -> b R | EPSILON"

/-- Behind `a b` only the strict parse lets `R` vanish; at a leading `b` both fail alike. -/
theorem strict_extends_lenient_tail :
    ∃ g d d' later e, ofText tailText {} = .ok g ∧
      g.parse ⟨true, {}⟩ (letterTokens ["a", "b"]) = .ok d ∧ d.ruleNumbers = [0, 1, 2] ∧
      g.parse ⟨false, {}⟩ (letterTokens ["a", "b"]) = .ok d' ∧ d'.ruleNumbers = [0, 1] ∧
      d'.tokensConsumed = d.tokensConsumed ∧ d.steps = d'.steps ++ later ∧
      (∀ step ∈ later, ∃ r, g.rule? step.rule = some r ∧
        step = DerivationStep.ofRule g.alphabet r ∧ g.Derives r.expansion []) ∧
      g.parse ⟨false, {}⟩ (letterTokens ["b"]) = .error e ∧
      g.parse ⟨true, {}⟩ (letterTokens ["b"]) = .error e := by
  have hrun : (ofText tailText {}).map (fun g =>
      ((g.parse ⟨true, {}⟩ (letterTokens ["a", "b"])).map Derivation.ruleNumbers,
        (g.parse ⟨false, {}⟩ (letterTokens ["a", "b"])).map Derivation.ruleNumbers,
        g.parse ⟨false, {}⟩ (letterTokens ["b"]))) =
      .ok (.ok [0, 1, 2], .ok [0, 1], .error (.unexpected ⟨some "b", 1, 1, ["a"]⟩)) := by
    decide +kernel
  obtain ⟨g, hg, he⟩ := map_eq_ok.mp hrun
  obtain ⟨hstrict, hlenient, hfault⟩ : _ ∧ _ ∧ _ := by simpa only [Prod.mk.injEq] using he
  obtain ⟨d, hd, hnumbers⟩ := map_eq_ok.mp hstrict
  obtain ⟨d₁, hd₁, hnumbers₁⟩ := map_eq_ok.mp hlenient
  obtain ⟨d', later, hd', hconsumed, hsteps, hlater⟩ :=
    (strict_extends_lenient hg (by decide) _).1 d hd
  obtain rfl : d₁ = d' := Except.ok.inj (hd₁.symm.trans hd')
  exact ⟨g, d, d₁, later, _, hg, hd, hnumbers, hd', hnumbers₁, hconsumed, hsteps, hlater, hfault,
    (strict_extends_lenient hg (by decide) _).2 _ hfault⟩

end CompiledGrammar

end PredictiveFrontend

import PredictiveFrontend.Proofs.Grammar.Leftmost
import PredictiveFrontend.Proofs.Tree.Replay

/-!
# Which rules grow into a tree

The rules that grow into a tree are exactly those of leftmost derivations from the start symbol,
complete or not. All others are refused at the first rule that does not go on with such a
derivation, and the error tells which rule this is and what is wrong with it. The tokens have no say
in it: what a growing tree does to the steps is a loop over the symbols still to be grown, and a
marker of the empty word counts among them as little as any other terminal.
-/

namespace PredictiveFrontend

/-- Rules begin with a leftmost derivation from the start symbol to some form, and the next rule
does not go on with it. -/
structure CompiledGrammar.BreaksAt (g : CompiledGrammar) (numbers before : List Nat) (number : Nat)
    (after : List Nat) (form : List Code) : Prop where
  numbers_eq : numbers = before ++ number :: after
  derives : g.DerivesLeftmost [g.start] before form
  stuck : ∀ next, ¬ g.YieldsLeftmost number form next

/-- What an error says about rules that are no leftmost derivation: it is about the first rule that
does not go on with one. -/
inductive TreeError.Reports (g : CompiledGrammar) (numbers : List Nat) : TreeError → Prop where
  /-- No nonterminal is left, and so many rules are. -/
  | unused {before after : List Nat} {number : Nat} {form : List Code}
    (h : g.BreaksAt numbers before number after form)
    (hform : ∀ c ∈ form, g.alphabet.isTerminal c = true) :
    Reports g numbers (.unusedSteps (number :: after).length)
  /-- A nonterminal is left, and there is no rule of the number. -/
  | unknown {before after : List Nat} {number : Nat} {read rest : List Code} {c : Code}
    (h : g.BreaksAt numbers before number after (read ++ c :: rest))
    (hread : ∀ d ∈ read, g.alphabet.isTerminal d = true) (hc : g.alphabet.isTerminal c = false)
    (hr : g.rule? number = none) : Reports g numbers (.unknownRule before.length number)
  /-- The first nonterminal is another one than the left side of the rule. -/
  | mismatch {before after : List Nat} {number : Nat} {read rest : List Code} {c : Code} {r : Rule}
    (h : g.BreaksAt numbers before number after (read ++ c :: rest))
    (hread : ∀ d ∈ read, g.alphabet.isTerminal d = true) (hc : g.alphabet.isTerminal c = false)
    (hr : g.rule? number = some r) :
    Reports g numbers (.mismatch before.length (g.name c) (g.name r.lhs))

namespace ParseTree

variable {g : CompiledGrammar}

/-! ### Steps without tokens -/

/-- The steps that are left when symbols are grown one after the other, the right side of a rule in
front of the symbols behind its left side. -/
def stepsLeft (g : CompiledGrammar) (symbols : List Code) (steps : List (Nat × Nat)) :
    Except TreeError (List (Nat × Nat)) :=
  match symbols with
  | [] => .ok steps
  | c :: others =>
    if g.alphabet.isTerminal c then stepsLeft g others steps
    else match steps with
      | [] => .ok []
      | step :: later => do
        let r ← ruleOfStep g c step
        stepsLeft g ((if r.isEpsilon then [] else r.rhs) ++ others) later
termination_by (steps.length, symbols.length)

section

variable {c : Code} {others : List Code}

theorem stepsLeft_terminal (hc : g.alphabet.isTerminal c = true) (steps : List (Nat × Nat)) :
    stepsLeft g (c :: others) steps = stepsLeft g others steps := by
  rw [stepsLeft.eq_def]
  exact if_pos hc

theorem stepsLeft_nonterminal (hc : g.alphabet.isTerminal c = false) (step : Nat × Nat)
    (later : List (Nat × Nat)) :
    stepsLeft g (c :: others) (step :: later) = (do
      let r ← ruleOfStep g c step
      stepsLeft g ((if r.isEpsilon then [] else r.rhs) ++ others) later) := by
  rw [stepsLeft, if_neg (by simp [hc])]

theorem stepsLeft_append_terminals {read : List Code}
    (hread : ∀ d ∈ read, g.alphabet.isTerminal d = true) (steps : List (Nat × Nat)) :
    stepsLeft g (read ++ others) steps = stepsLeft g others steps := by
  induction read with
  | nil => rfl
  | cons d read ih =>
    obtain ⟨hd, hread⟩ := List.forall_mem_cons.mp hread
    rw [List.cons_append, stepsLeft_terminal hd, ih hread]

end

/-- Where no steps are left to begin with, none are left in the end. -/
theorem stepsLeft_nil (symbols : List Code) : stepsLeft g symbols [] = .ok [] := by
  induction symbols with
  | nil => rw [stepsLeft]
  | cons c others ih =>
    cases hc : g.alphabet.isTerminal c with
    | true => rw [stepsLeft_terminal hc, ih]
    | false => rw [stepsLeft, if_neg (by simp [hc])]

/-- Whatever the tokens are, a growing tree leaves these steps. -/
theorem map_steps_grow (symbols : List Code) (steps : List (Nat × Nat)) (tokens : List Token) :
    (grow g symbols steps tokens).map Growth.steps = stepsLeft g symbols steps := by
  induction symbols, steps using stepsLeft.induct g generalizing tokens with
  | case1 steps =>
    rw [grow, stepsLeft]
    rfl
  | case2 steps c others hc ih =>
    rw [stepsLeft_terminal hc, grow_terminal _ _ _ hc, ← ih tokens.tail]
    cases grow g others steps tokens.tail <;> rfl
  | case3 c others hc =>
    rw [Bool.not_eq_true] at hc
    obtain ⟨_, hreplays⟩ := Replays.exists_nil (g := g) (c :: others)
    obtain ⟨growth, hgrow, hsteps, -⟩ := hreplays 0 tokens
    rw [stepsLeft_nil]
    exact (congrArg (Except.map Growth.steps) hgrow).trans (congrArg Except.ok hsteps)
  | case4 c others hc step later ih =>
    rw [Bool.not_eq_true] at hc
    rw [stepsLeft_nonterminal hc, grow_node _ _ _ hc]
    cases hr : ruleOfStep g c step with
    | error e => rfl
    | ok r =>
      have hboth := ih r tokens
      simp only [dite_eq_ite, grow_append] at hboth
      refine Eq.trans ?_ hboth
      cases hbelow : grow g (if r.isEpsilon then [] else r.rhs) later tokens with
      | error e => simp only [bind, Except.bind, hbelow, Except.map]
      | ok below =>
        cases hrest : grow g others below.steps below.tokens with
        | error e => simp only [bind, Except.bind, hbelow, hrest, Except.map]
        | ok rest => simp only [bind, Except.bind, hbelow, hrest]; rfl

/-! ### Steps and leftmost derivations -/

/-- Markers of the empty word use no steps up. -/
theorem stepsLeft_sententialForm (wf : g.toGrammar.WellFormed) (symbols : List Code)
    (steps : List (Nat × Nat)) :
    stepsLeft g (Grammar.sententialForm symbols) steps = stepsLeft g symbols steps := by
  induction steps generalizing symbols with
  | nil => rw [stepsLeft_nil, stepsLeft_nil]
  | cons step later ihsteps =>
    induction symbols with
    | nil => rfl
    | cons c others ih =>
      rw [Grammar.sententialForm_cons]
      by_cases hepsilon : c = Code.epsilon
      · subst hepsilon
        rw [stepsLeft_terminal wf.isTerminal_epsilon]
        exact ih
      · rw [Grammar.sententialForm_eq_self (by simpa using Ne.symm hepsilon), List.singleton_append]
        cases hc : g.alphabet.isTerminal c with
        | true => rw [stepsLeft_terminal hc, stepsLeft_terminal hc, ih]
        | false =>
          rw [stepsLeft_nonterminal hc, stepsLeft_nonterminal hc]
          refine bind_congr fun r => ?_
          -- Both right sides are the same form, with markers in it or without.
          rw [← ihsteps (_ ++ others), ← ihsteps, Grammar.sententialForm_append,
            Grammar.sententialForm_append,
            Grammar.sententialForm_eq_self (Grammar.epsilon_not_mem_sententialForm others)]

/-- The steps of a leftmost derivation are used up, and what is left then has to be grown from the
form that it leads to. -/
theorem stepsLeft_append (wf : g.toGrammar.WellFormed) {symbols form : List Code}
    {steps : List (Nat × Nat)}
    (h : g.DerivesLeftmost (Grammar.sententialForm symbols) (steps.map Prod.fst) form)
    (later : List (Nat × Nat)) : stepsLeft g symbols (steps ++ later) = stepsLeft g form later := by
  induction steps generalizing symbols form with
  | nil =>
    cases h
    exact (stepsLeft_sententialForm wf symbols later).symm
  | cons step steps ih =>
    rw [← stepsLeft_sententialForm wf]
    generalize hsymbols : Grammar.sententialForm symbols = start at h
    cases h with
    | head hyields hrest =>
      obtain ⟨after, hr, hlhs, hbefore⟩ := hyields
      next r before =>
      have hafter : Code.epsilon ∉ after := fun hmem =>
        Grammar.epsilon_not_mem_sententialForm symbols (by simp [hsymbols, hmem])
      obtain ⟨form, hform, rfl⟩ := (Grammar.deriveLeftmost?_append_terminals hbefore).mp
        (Grammar.deriveLeftmost?_eq_some_iff.mpr (List.append_assoc before _ _ ▸ hrest))
      have hbody : Grammar.sententialForm ((if r.isEpsilon then [] else r.rhs) ++ after) =
          r.expansion ++ after := by
        rw [Grammar.sententialForm_append, sententialForm_grown,
          Grammar.sententialForm_eq_self hafter]
      have hrule : ruleOfStep g r.lhs step = .ok r := by
        simp only [ruleOfStep, hr, if_true]
      rw [stepsLeft_append_terminals hbefore, stepsLeft_append_terminals hbefore, List.cons_append,
        stepsLeft_nonterminal hlhs, hrule]
      refine ih ?_
      rw [hbody]
      exact Grammar.deriveLeftmost?_eq_some_iff.mp hform

/-! ### Verdicts -/

/-- What becomes of the rules, apart from the tree. -/
def verdict (g : CompiledGrammar) (numbers : List Nat) : Except TreeError Unit := do
  match ← stepsLeft g [g.start] numbers.zipIdx with
  | [] => return ()
  | extra => throw (.unusedSteps extra.length)

/-- Whether there is a tree, and why not, is the same for all tokens. -/
theorem map_ofRules (numbers : List Nat) (tokens : List Token) :
    (ofRules g numbers tokens).map (fun _ => ()) = verdict g numbers := by
  rw [verdict, ← map_steps_grow _ _ (Token.significant tokens), ofRules]
  cases grow g [g.start] numbers.zipIdx (Token.significant tokens) with
  | error e => rfl
  | ok growth =>
    obtain ⟨trees, steps, tokens, hle⟩ := growth
    cases steps with
    | nil => rfl
    | cons step later => rfl

/-- The first rules of a list, with their positions, stand in front of the others. -/
theorem stepsLeft_zipIdx (wf : g.toGrammar.WellFormed) {numbers : List Nat} {form : List Code}
    (h : g.DerivesLeftmost [g.start] numbers form) (later : List Nat) :
    stepsLeft g [g.start] (numbers ++ later).zipIdx =
      stepsLeft g form (later.zipIdx numbers.length) := by
  have hstart := wf.ne_epsilon_of_isNonterminal wf.isNonterminal_start
  rw [List.zipIdx_append, Nat.zero_add]
  refine stepsLeft_append wf ?_ _
  rw [List.zipIdx_map_fst, Grammar.sententialForm_eq_self (by simpa using hstart.symm)]
  exact h

/-- The rules of a leftmost derivation are accepted, whether or not it is complete. -/
theorem verdict_of_derives (wf : g.toGrammar.WellFormed) {numbers : List Nat} {form : List Code}
    (h : g.DerivesLeftmost [g.start] numbers form) : verdict g numbers = .ok () := by
  have hleft := stepsLeft_zipIdx wf h []
  rw [List.append_nil, List.zipIdx_nil, stepsLeft_nil] at hleft
  rw [verdict, hleft]
  rfl

/-- What is reported is what the rules are refused for. -/
theorem verdict_of_reports (wf : g.toGrammar.WellFormed) {numbers : List Nat} {e : TreeError}
    (h : e.Reports g numbers) : verdict g numbers = .error e := by
  cases h with
  | unused h hform =>
    next before after number form =>
    obtain ⟨rfl, hderives, -⟩ := h
    have hleft : stepsLeft g (form ++ []) ((number :: after).zipIdx before.length) =
        stepsLeft g [] ((number :: after).zipIdx before.length) :=
      stepsLeft_append_terminals hform _
    rw [List.append_nil, stepsLeft] at hleft
    rw [verdict, stepsLeft_zipIdx wf hderives, hleft]
    simp [bind, Except.bind, throw, throwThe, MonadExceptOf.throw]
  | unknown h hread hc hr =>
    obtain ⟨rfl, hderives, -⟩ := h
    rw [verdict, stepsLeft_zipIdx wf hderives, List.zipIdx_cons, stepsLeft_append_terminals hread,
      stepsLeft_nonterminal hc, ruleOfStep, hr]
    rfl
  | mismatch h hread hc hr =>
    obtain ⟨rfl, hderives, hstuck⟩ := h
    next before after number read rest c r =>
    have hlhs : r.lhs ≠ c := by
      rintro rfl
      exact hstuck _ (.apply rest hr hc hread)
    rw [verdict, stepsLeft_zipIdx wf hderives, List.zipIdx_cons, stepsLeft_append_terminals hread,
      stepsLeft_nonterminal hc, ruleOfStep, hr]
    simp only [if_neg hlhs]
    rfl

/-- Rules are a leftmost derivation, or there is something to report about them. -/
theorem derives_or_reports (g : CompiledGrammar) (numbers : List Nat) :
    (∃ form, g.DerivesLeftmost [g.start] numbers form) ∨
      ∃ e : TreeError, e.Reports g numbers := by
  cases hform : g.deriveLeftmost? [g.start] numbers with
  | some form => exact Or.inl ⟨form, Grammar.deriveLeftmost?_eq_some_iff.mp hform⟩
  | none =>
    obtain ⟨before, number, after, form, hnumbers, hderives, hstuck⟩ :=
      Grammar.exists_of_deriveLeftmost?_eq_none hform
    have hbreaks : g.BreaksAt numbers before number after form := ⟨hnumbers, hderives, hstuck⟩
    rcases g.terminals_or_exists_nonterminal form with hterminals | ⟨read, c, rest, rfl, hread, hc⟩
    · exact Or.inr ⟨_, .unused hbreaks hterminals⟩
    · cases hr : g.rule? number with
      | none => exact Or.inr ⟨_, .unknown hbreaks hread hc hr⟩
      | some r => exact Or.inr ⟨_, .mismatch hbreaks hread hc hr⟩

/-- A verdict is an acceptance or a report. -/
theorem verdict_eq_ok_iff (wf : g.toGrammar.WellFormed) {numbers : List Nat} :
    verdict g numbers = .ok () ↔ ∃ form, g.DerivesLeftmost [g.start] numbers form := by
  constructor
  · intro h
    rcases derives_or_reports g numbers with hderives | ⟨e, he⟩
    · exact hderives
    · rw [verdict_of_reports wf he] at h
      cases h
  · rintro ⟨form, hform⟩
    exact verdict_of_derives wf hform

theorem verdict_eq_error_iff (wf : g.toGrammar.WellFormed) {numbers : List Nat} {e : TreeError} :
    verdict g numbers = .error e ↔ e.Reports g numbers := by
  constructor
  · intro h
    rcases derives_or_reports g numbers with ⟨form, hform⟩ | ⟨e', he'⟩
    · rw [verdict_of_derives wf hform] at h
      cases h
    · rw [verdict_of_reports wf he'] at h
      cases h
      exact he'
  · exact verdict_of_reports wf

/-- Rules grow into a tree exactly if they are those of a leftmost derivation from the start symbol,
complete or not. If they are not, the error is the report on the first rule that does not go on with
such a derivation. None of this depends on the tokens. -/
theorem ofDerivation_exact {text : String} {options : CompileOptions}
    (hg : CompiledGrammar.ofText text options = .ok g) (d : Derivation) (tokens : List Token) :
    ((∃ tree, ofDerivation g d tokens = .ok tree) ↔
        ∃ form, g.DerivesLeftmost [g.start] d.ruleNumbers form) ∧
      (∀ e, ofDerivation g d tokens = .error e ↔ e.Reports g d.ruleNumbers) ∧
      ∀ tokens', (ofDerivation g d tokens').map (fun _ => ()) =
        (ofDerivation g d tokens).map fun _ => () := by
  have wf := (CompiledGrammar.compiledBy_of_ofText hg).wellFormed
  have hverdict : ∀ tokens, (ofDerivation g d tokens).map (fun _ => ()) = verdict g d.ruleNumbers :=
    map_ofRules d.ruleNumbers
  refine ⟨?_, fun e => ?_, fun tokens' => (hverdict tokens').trans (hverdict tokens).symm⟩
  · rw [← verdict_eq_ok_iff wf, ← hverdict tokens, map_eq_ok]
    simp
  · rw [← verdict_eq_error_iff wf, ← hverdict tokens, map_eq_error]

/-- The derivation by rules of some numbers, with nothing else told about them. -/
def ofNumbers (numbers : List Nat) : Derivation :=
  ⟨numbers.map fun number => ⟨number, "", []⟩, 0⟩

/-- A rule for `S` alone makes a tree, in which `S` is left; a rule for `U` behind it is refused,
whatever the tokens are. -/
theorem ofDerivation_exact_balanced :
    ∃ g, CompiledGrammar.ofText CompiledGrammar.balancedText {} = .ok g ∧
      (∃ tree, ofDerivation g (ofNumbers [0]) (CompiledGrammar.letterTokens ["a"]) = .ok tree) ∧
      ofDerivation g (ofNumbers [0, 3]) (CompiledGrammar.letterTokens ["a"]) =
        .error (.mismatch 1 "S" "U") := by
  have hrun : (CompiledGrammar.ofText CompiledGrammar.balancedText {}).map (fun g => decide
      (g.deriveLeftmost? [g.start] [0] = some [3, 2, 4] ∧ g.expandLeftmost? 3 [3, 2, 4] = none ∧
        g.rule? 3 = some ⟨3, 5, [5, 6]⟩ ∧ g.alphabet.isTerminal 3 = true ∧
        g.alphabet.isTerminal 2 = false ∧ g.name 2 = "S" ∧ g.name 5 = "U")) = .ok true := by
    decide +kernel
  obtain ⟨g, hg, hrun⟩ := map_eq_ok.mp hrun
  obtain ⟨hform, hstuck, hr, hread, hc, hS, hU⟩ := of_decide_eq_true hrun
  have hderives := Grammar.deriveLeftmost?_eq_some_iff.mp hform
  have hbreaks : g.BreaksAt [0, 3] [0] 3 [] ([3] ++ 2 :: [4]) := by
    refine ⟨rfl, hderives, fun next hnext => ?_⟩
    rw [← Grammar.expandLeftmost?_eq_some_iff, List.singleton_append, hstuck] at hnext
    cases hnext
  refine ⟨g, hg, (ofDerivation_exact hg _ _).1.mpr ⟨_, hderives⟩, ?_⟩
  have hreport := TreeError.Reports.mismatch hbreaks (by simpa using hread) hc hr
  rw [hS, hU] at hreport
  exact ((ofDerivation_exact hg _ _).2.1 _).mpr hreport

end ParseTree

end PredictiveFrontend

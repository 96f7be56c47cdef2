import PredictiveFrontend.Proofs.Derivation.Lookahead
import PredictiveFrontend.Proofs.Derivation.MoveLimit
import PredictiveFrontend.Proofs.Derivation.Soundness

/-!
# The machine comes to an end

If conflicts are refused and the FOLLOW sets are complete, a predicted rule is never applied in
vain: either the lookahead begins a form that the rule leads to, or the rule leads to the empty word
and the lookahead may follow. A derivation that shows this directs the machine to the terminal or
below the nonterminal, so no nonterminal is expanded forever, whatever the grammar and the input.
-/

namespace PredictiveFrontend

namespace Machine

variable {g : CompiledGrammar} {options : CompileOptions} {strict : Bool}

/-- Whether the machine comes to an end. -/
def Halts (g : CompiledGrammar) (strict : Bool) (s : State) : Prop :=
  ∃ n, (run g strict n s).isFinished = true

theorem Halts.of_reaches {s s' : State} (h : Reaches g strict s s') (hend : Halts g strict s') :
    Halts g strict s := by
  obtain ⟨k, hk⟩ := h.exists_run_add
  obtain ⟨n, hn⟩ := hend
  exact ⟨k + n, by rwa [hk]⟩

/-- A machine that cannot go on has come to its end. -/
theorem Halts.of_forall_not_transition {s : State} (h : ∀ s', ¬Transition g strict s s') :
    Halts g strict s := by
  refine ⟨1, ?_⟩
  cases hm : move g strict s with
  | next s' => exact absurd (move_eq_next.mp hm) (h s')
  | accept => simp [run, hm, Outcome.isFinished]
  | reject expected => simp [run, hm, Outcome.isFinished]

section Terminates

variable (hg : g.CompiledBy options) (hpolicy : options.conflictPolicy = .reject)
  (hstrategy : options.followStrategy = .fixedPoint)
include hg hpolicy hstrategy

/-- A nonterminal for which a rule is predicted is expanded until the next terminal is on top or
nothing of the nonterminal is left. -/
theorem exists_reaches_of_predicted? {c t : Code}
    (hstrict : t = Code.endOfInput → strict = true) {r : Rule} (hr : g.predicted? c t = some r)
    (stack input : List Code) (applied : List Rule) (consumed : Nat) :
    g.alphabet.isTerminal t = true ∧ ∃ symbols applied',
      (symbols = [] ∨ ∃ rest, symbols = t :: rest) ∧ Reaches g strict
        ⟨c :: stack, t :: input, applied, consumed⟩
        ⟨symbols ++ stack, t :: input, applied', consumed⟩ := by
  obtain ⟨hmem, rfl, hpredict⟩ := hg.of_predicted? hr
  have hderive : ∀ {numbers form}, g.deriveLeftmost? r.expansion numbers = some form →
      g.deriveLeftmost? [r.lhs] (r.number :: numbers) = some form := fun hd =>
    Grammar.deriveLeftmost?_lhs hg.wellFormed hmem (by rwa [List.append_nil])
  rcases Rule.mem_predict.mp hpredict with ⟨hfirst, hne⟩ | ⟨hvanish, hfollow⟩
  · have ht := hg.sound_first.isTerminal_ofSequence hg.wellFormed hfirst
    obtain ⟨numbers, form, hd⟩ :=
      (Grammar.starts_of_ne hne).mp (hg.sound_first.starts_ofSequence hfirst)
    have hdirected : g.Directed [] (t :: form) (r.number :: numbers) [r.lhs] :=
      ⟨hderive hd, .singleton r.lhs⟩
    obtain ⟨used, left, symbols, applied', -, -, hhead, hreach⟩ :=
      exists_reachesBy_of_directed hg hpolicy hstrategy (CodeSet.lt_of_mem hfirst) ht hne
        hstrict hdirected rfl stack input applied consumed
    rw [List.append_nil] at hhead
    exact ⟨ht, symbols, applied', Or.inr (List.head?_eq_some_iff.mp hhead), hreach.1⟩
  · obtain ⟨ht, hne⟩ := hg.isTerminal_of_mem_follow hstrategy hfollow
    obtain ⟨numbers, hd⟩ :=
      Grammar.starts_epsilon.mp (hg.sound_first.starts_ofSequence hvanish)
    have hdirected : g.Directed [t] [] (r.number :: numbers) [r.lhs] :=
      ⟨hderive hd, .pair hg.closed_first ht hne hfollow⟩
    obtain ⟨used, left, symbols, applied', -, -, hhead, hreach⟩ :=
      exists_reachesBy_of_directed hg hpolicy hstrategy (CodeSet.lt_of_mem hfollow) ht hne
        hstrict hdirected rfl stack input applied consumed
    refine ⟨ht, symbols, applied', ?_, hreach.1⟩
    cases symbols with
    | nil => exact Or.inl rfl
    | cons d rest =>
      cases hhead
      exact Or.inr ⟨rest, rfl⟩

/-- From every state the machine comes to an end: there are only so many terminals to read, and for
each of them only so many symbols to expand. -/
theorem halts (stack input : List Code) (applied : List Rule) (consumed : Nat) :
    Halts g strict ⟨stack, input, applied, consumed⟩ := by
  -- Reading a terminal shortens the input; otherwise the symbol on top vanishes and the stack gets
  -- shorter in front of the same input.
  induction input generalizing stack applied consumed with
  | nil =>
    refine .of_forall_not_transition fun s' ht => ?_
    cases ht
  | cons t input ihInput =>
    induction stack generalizing applied consumed with
    | nil =>
      refine .of_forall_not_transition fun s' ht => ?_
      cases ht
    | cons c stack ihStack =>
      by_cases hgo : ∃ s', Transition g strict ⟨c :: stack, t :: input, applied, consumed⟩ s'
      · obtain ⟨s', ht⟩ := hgo
        cases ht with
        | read _ _ _ _ _ hc => exact .of_reaches (.single (.read _ _ _ _ _ hc)) (ihInput ..)
        | expand _ _ _ _ _ _ r hc ht hr =>
          obtain ⟨hterminal, symbols, applied', hsymbols, hreach⟩ :=
            exists_reaches_of_predicted? hg hpolicy hstrategy ht hr stack input applied consumed
          refine .of_reaches hreach ?_
          rcases hsymbols with rfl | ⟨rest, rfl⟩
          · exact ihStack applied' consumed
          · exact .of_reaches (.single (.read _ _ _ _ _ hterminal)) (ihInput ..)
      · exact .of_forall_not_transition fun s' ht => hgo ⟨s', ht⟩

end Terminates

end Machine

namespace CompiledGrammar

/-- If conflicts are refused and the FOLLOW sets are complete, the machine accepts or rejects every
input within its move limit, so no parse is given up. -/
theorem parse_terminates {text : String} {g : CompiledGrammar}
    (h : ofText text ⟨.reject, .fixedPoint⟩ = .ok g) (parsing : ParseOptions)
    (tokens : List Token) :
    (∀ input, ∃ n ≤ Machine.moveLimit g input,
        (∃ s, Machine.run g parsing.strict n (.initial g input) = .accepted s) ∨
        ∃ s expected, Machine.run g parsing.strict n (.initial g input) = .rejected s expected) ∧
    g.parse parsing tokens ≠ .error .unbounded := by
  have hg := compiledBy_of_ofText h
  have hhalts : ∀ input, Machine.Halts g parsing.strict (.initial g input) := fun input =>
    Machine.halts hg rfl rfl _ _ _ _
  constructor
  · intro input
    obtain ⟨n, hn⟩ := hhalts input
    have hlimit := Machine.isFinished_run_moveLimit hg hn
    refine ⟨Machine.moveLimit g input, Nat.le_refl _, ?_⟩
    cases ho : Machine.run g parsing.strict (Machine.moveLimit g input) (.initial g input) with
    | accepted s => exact Or.inl ⟨s, rfl⟩
    | rejected s expected => exact Or.inr ⟨s, expected, rfl⟩
    | unfinished s =>
      rw [ho] at hlimit
      cases hlimit
  · intro hu
    cases hinput : g.inputOf parsing.generic (Token.significant tokens) with
    | error e =>
      obtain ⟨t, -, rfl⟩ := eq_unmapped_of_inputOf_eq_error hinput
      simp [parse, hinput, bind, Except.bind] at hu
    | ok input =>
      obtain ⟨word, hw, rfl⟩ := inputOf_eq_ok.mp hinput
      obtain ⟨n, hn⟩ := hhalts (word ++ [Code.endOfInput])
      rw [(parse_eq_unbounded_iff hg hw).mp hu n] at hn
      cases hn

/-- The left-recursive nonterminal of the balanced letters is never expanded forever. -/
theorem parse_terminates_balanced :
    ∃ g, ofText balancedText ⟨.reject, .fixedPoint⟩ = .ok g ∧
      (∃ n ≤ Machine.moveLimit g [3, 4, Code.endOfInput],
        (∃ s, Machine.run g true n (.initial g [3, 4, Code.endOfInput]) = .accepted s) ∨
        ∃ s expected, Machine.run g true n (.initial g [3, 4, Code.endOfInput]) =
          .rejected s expected) ∧
      g.parse ⟨true, {}⟩ (letterTokens ["a", "b"]) ≠ .error .unbounded := by
  have hrun : (ofText balancedText ⟨.reject, .fixedPoint⟩).map (·.start) = .ok 2 := by
    decide +kernel
  obtain ⟨g, hg, -⟩ := map_eq_ok.mp hrun
  obtain ⟨hends, hparse⟩ := parse_terminates hg ⟨true, {}⟩ (letterTokens ["a", "b"])
  exact ⟨g, hg, hends [3, 4, Code.endOfInput], hparse⟩

end CompiledGrammar

end PredictiveFrontend

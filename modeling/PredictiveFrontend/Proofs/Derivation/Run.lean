import PredictiveFrontend.Derivation.Machine
import PredictiveFrontend.Proofs.Derivation.Input
import Mathlib.Logic.Relation

/-!
# Runs of the parsing machine

The machine goes on in two ways: it reads a terminal, or it expands a nonterminal. A run that ends
does so in a state reached by such transitions, and it ends alike however many more moves it may
make. What a parse says about tokens is how the run on their word ends.
-/

namespace PredictiveFrontend

namespace Machine

variable {g : CompiledGrammar} {strict : Bool}

/-! ### Transitions -/

/-- How the machine goes on. -/
inductive Transition (g : CompiledGrammar) (strict : Bool) : State → State → Prop where
  /-- A terminal on top is the next one to be read. -/
  | read (c : Code) (stack input : List Code) (applied : List Rule) (consumed : Nat)
    (hc : g.alphabet.isTerminal c = true) :
    Transition g strict ⟨c :: stack, c :: input, applied, consumed⟩
      ⟨stack, input, applied, if c = Code.endOfInput then consumed else consumed + 1⟩
  /-- A nonterminal on top is replaced by the right side of the rule predicted for it. -/
  | expand (c t : Code) (stack input : List Code) (applied : List Rule) (consumed : Nat) (r : Rule)
    (hc : g.alphabet.isTerminal c = false) (ht : t = Code.endOfInput → strict = true)
    (hr : g.predicted? c t = some r) :
    Transition g strict ⟨c :: stack, t :: input, applied, consumed⟩
      ⟨r.expansion ++ stack, t :: input, r :: applied, consumed⟩

/-- The moves that go on are the transitions. -/
theorem move_eq_next {s s' : State} : move g strict s = .next s' ↔ Transition g strict s s' := by
  constructor
  · intro h
    obtain ⟨stack, input, applied, consumed⟩ := s
    unfold move at h
    split at h
    · next c stack t input hs hi =>
      cases hs
      cases hi
      split at h
      · next hc =>
        split at h
        · next he =>
          subst he
          cases h
          exact .read c stack input applied consumed hc
        · cases h
      · next hc =>
        split at h
        · cases h
        · next ht =>
          split at h
          · next r hr =>
            cases h
            refine .expand c t stack input applied consumed r (by simpa using hc) ?_ hr
            intro he
            simpa [he] using ht
          · cases h
    · cases h
  · intro h
    cases h with
    | read c stack input applied consumed hc => simp [move, hc]
    | expand c t stack input applied consumed r hc ht hr =>
      have hgo : ¬(t = Code.endOfInput ∧ strict = false) := by
        rintro ⟨he, hs⟩
        rw [ht he] at hs
        cases hs
      simp [move, hc, hgo, hr]

/-- The input is accepted when the stack or the input is empty, and in lenient mode when the input
ends below a nonterminal. -/
theorem move_eq_accept {s : State} : move g strict s = .accept ↔
    s.stack = [] ∨ s.input = [] ∨ ∃ c stack input, s.stack = c :: stack ∧
      s.input = Code.endOfInput :: input ∧ g.alphabet.isTerminal c = false ∧ strict = false := by
  obtain ⟨stack, input, applied, consumed⟩ := s
  cases stack with
  | nil => simp [move]
  | cons c stack =>
    cases input with
    | nil => simp [move]
    | cons t input =>
      cases hc : g.alphabet.isTerminal c with
      | true =>
        by_cases he : c = t
        · subst he
          simp [move, hc]
        · simp [move, hc, he]
      | false =>
        by_cases ht : t = Code.endOfInput ∧ strict = false
        · obtain ⟨rfl, rfl⟩ := ht
          simp [move, hc]
        · have hmove : move g strict ⟨c :: stack, t :: input, applied, consumed⟩ ≠ .accept := by
            simp only [move, hc, ht]
            cases g.predicted? c t <;> simp
          simpa [hmove, hc] using ht

/-- Any number of transitions. -/
def Reaches (g : CompiledGrammar) (strict : Bool) : State → State → Prop :=
  Relation.ReflTransGen (Transition g strict)

/-- Transitions that apply the rules of some numbers, in this order. -/
def ReachesBy (g : CompiledGrammar) (strict : Bool) (numbers : List Nat) (s s' : State) : Prop :=
  Reaches g strict s s' ∧
    s'.applied.map Rule.number = numbers.reverse ++ s.applied.map Rule.number

namespace ReachesBy

theorem refl (s : State) : ReachesBy g strict [] s s :=
  ⟨.refl, rfl⟩

theorem trans {numbers numbers' : List Nat} {s s' s'' : State}
    (h : ReachesBy g strict numbers s s') (h' : ReachesBy g strict numbers' s' s'') :
    ReachesBy g strict (numbers ++ numbers') s s'' := by
  refine ⟨h.1.trans h'.1, ?_⟩
  rw [h'.2, h.2, List.reverse_append, List.append_assoc]

/-- Reading a terminal applies no rule. -/
theorem read {c : Code} (hc : g.alphabet.isTerminal c = true) (stack input : List Code)
    (applied : List Rule) (consumed : Nat) :
    ReachesBy g strict [] ⟨c :: stack, c :: input, applied, consumed⟩
      ⟨stack, input, applied, if c = Code.endOfInput then consumed else consumed + 1⟩ :=
  ⟨.single (.read c stack input applied consumed hc), rfl⟩

/-- Expanding a nonterminal applies the rule predicted for it. -/
theorem expand {c t : Code} {r : Rule} (hc : g.alphabet.isTerminal c = false)
    (ht : t = Code.endOfInput → strict = true) (hr : g.predicted? c t = some r)
    (stack input : List Code) (applied : List Rule) (consumed : Nat) :
    ReachesBy g strict [r.number] ⟨c :: stack, t :: input, applied, consumed⟩
      ⟨r.expansion ++ stack, t :: input, r :: applied, consumed⟩ :=
  ⟨.single (.expand c t stack input applied consumed r hc ht hr), rfl⟩

end ReachesBy

/-- The machine leaves no choice. -/
theorem transition_rightUnique : Relator.RightUnique (Transition g strict) := by
  intro s s₁ s₂ h₁ h₂
  have hmove : move g strict s = .next s₁ := move_eq_next.mpr h₁
  rw [move_eq_next.mpr h₂] at hmove
  exact (Move.next.inj hmove).symm

/-- Nothing else is reached from a state in which the machine does not go on. -/
theorem Reaches.eq_of_stuck {s s' : State} (h : Reaches g strict s s')
    (hstuck : ∀ s', move g strict s ≠ .next s') : s = s' := by
  rcases h.cases_head with he | ⟨s₁, ht, -⟩
  · exact he
  · exact absurd (move_eq_next.mpr ht) (hstuck s₁)

/-- A state in which the machine does not go on is reached from all others that are reached. -/
theorem Reaches.to_stuck {s s₁ s₂ : State} (h₁ : Reaches g strict s s₁)
    (h₂ : Reaches g strict s s₂) (hstuck : ∀ s', move g strict s₂ ≠ .next s') :
    Reaches g strict s₁ s₂ := by
  rcases Relation.ReflTransGen.total_of_right_unique transition_rightUnique h₁ h₂ with h | h
  · exact h
  · obtain rfl := Reaches.eq_of_stuck h hstuck
    exact .refl

/-- The input that is still to be read never grows. -/
theorem Reaches.length_input_le {s s' : State} (h : Reaches g strict s s') :
    s'.input.length ≤ s.input.length := by
  induction h with
  | refl => exact Nat.le_refl _
  | tail _ ht ih =>
    refine Nat.le_trans ?_ ih
    cases ht with
    | read => exact Nat.le_succ _
    | expand => exact Nat.le_refl _

/-! ### Runs -/

/-- Whether a run has come to its end. -/
def Outcome.isFinished : Outcome → Bool
  | .unfinished _ => false
  | _ => true

theorem run_succ_of_next {s s' : State} (h : move g strict s = .next s') (n : Nat) :
    run g strict (n + 1) s = run g strict n s' := by
  rw [run, h]

theorem Transition.run_succ {s s' : State} (h : Transition g strict s s') (n : Nat) :
    run g strict (n + 1) s = run g strict n s' :=
  run_succ_of_next (move_eq_next.mpr h) n

/-- The transitions on the way to a state come before the moves from there. -/
theorem Reaches.exists_run_add {s s' : State} (h : Reaches g strict s s') :
    ∃ k, ∀ n, run g strict (k + n) s = run g strict n s' := by
  induction h using Relation.ReflTransGen.head_induction_on with
  | refl => exact ⟨0, fun n => by rw [Nat.zero_add]⟩
  | head ht _ ih =>
    obtain ⟨k, hk⟩ := ih
    refine ⟨k + 1, fun n => ?_⟩
    rw [Nat.add_right_comm, ht.run_succ, hk]

/-- A run that has come to its end ends alike with more moves. -/
theorem run_of_le {n m : Nat} {s : State} (h : (run g strict n s).isFinished = true)
    (hle : n ≤ m) : run g strict m s = run g strict n s := by
  induction n generalizing m s with
  | zero => cases h
  | succ n ih =>
    obtain ⟨m, rfl⟩ : ∃ k, m = k + 1 := ⟨m - 1, by omega⟩
    cases hm : move g strict s with
    | next s' =>
      rw [run_succ_of_next hm] at h ⊢
      rw [run_succ_of_next hm]
      exact ih h (by omega)
    | accept => rw [run, run, hm]
    | reject expected => rw [run, run, hm]

/-- Two runs that have come to their ends end alike. -/
theorem run_eq_of_isFinished {n m : Nat} {s : State} (hn : (run g strict n s).isFinished = true)
    (hm : (run g strict m s).isFinished = true) : run g strict n s = run g strict m s := by
  rcases Nat.le_total n m with hle | hle
  · exact (run_of_le hn hle).symm
  · exact run_of_le hm hle

/-- A run leads by transitions to the state in which it ends, and ends as the move in this state
says. -/
theorem reaches_of_run (g : CompiledGrammar) (strict : Bool) (n : Nat) (s : State) :
    match run g strict n s with
    | .accepted s' => Reaches g strict s s' ∧ move g strict s' = .accept
    | .rejected s' expected => Reaches g strict s s' ∧ move g strict s' = .reject expected
    | .unfinished s' => Reaches g strict s s' := by
  induction n generalizing s with
  | zero => exact .refl
  | succ n ih =>
    cases hm : move g strict s with
    | next s₁ =>
      have hfirst : Transition g strict s s₁ := move_eq_next.mp hm
      have hrest := ih s₁
      rw [run_succ_of_next hm]
      cases hr : run g strict n s₁ with
      | accepted s' =>
        rw [hr] at hrest
        exact ⟨hrest.1.head hfirst, hrest.2⟩
      | rejected s' expected =>
        rw [hr] at hrest
        exact ⟨hrest.1.head hfirst, hrest.2⟩
      | unfinished s' =>
        rw [hr] at hrest
        exact Relation.ReflTransGen.head hfirst hrest
    | accept =>
      rw [run, hm]
      exact ⟨.refl, hm⟩
    | reject expected =>
      rw [run, hm]
      exact ⟨.refl, hm⟩

/-- An accepted run leads by transitions to a state in which the input is accepted. -/
theorem reaches_of_run_eq_accepted {n : Nat} {s s' : State}
    (h : run g strict n s = .accepted s') :
    Reaches g strict s s' ∧ move g strict s' = .accept := by
  have hr := reaches_of_run g strict n s
  rwa [h] at hr

/-- A rejected run leads by transitions to a state in which the input is rejected. -/
theorem reaches_of_run_eq_rejected {n : Nat} {s s' : State} {expected : List String}
    (h : run g strict n s = .rejected s' expected) :
    Reaches g strict s s' ∧ move g strict s' = .reject expected := by
  have hr := reaches_of_run g strict n s
  rwa [h] at hr

/-- A state in which the input is accepted ends all runs that lead to it. -/
theorem Reaches.exists_run_eq_accepted {s s' : State} (h : Reaches g strict s s')
    (ha : move g strict s' = .accept) : ∃ n, run g strict n s = .accepted s' := by
  obtain ⟨k, hk⟩ := h.exists_run_add
  refine ⟨k + 1, ?_⟩
  rw [hk, run, ha]

/-- A state in which the input is rejected ends all runs that lead to it. -/
theorem Reaches.exists_run_eq_rejected {s s' : State} (h : Reaches g strict s s')
    {expected : List String} (hr : move g strict s' = .reject expected) :
    ∃ n, run g strict n s = .rejected s' expected := by
  obtain ⟨k, hk⟩ := h.exists_run_add
  refine ⟨k + 1, ?_⟩
  rw [hk, run, hr]

/-! ### Parses -/

/-- What a parse says about tokens when the run on them has ended. -/
def Outcome.result (g : CompiledGrammar) (tokens : List Token) :
    Outcome → Except ParseError Derivation
  | .accepted s => .ok ⟨s.applied.reverse.map (DerivationStep.ofRule g.alphabet), s.consumed⟩
  | .rejected s expected => .error (.unexpected (.after tokens s.consumed expected))
  | .unfinished _ => .error .unbounded

namespace Outcome

variable {tokens : List Token} {o : Outcome}

theorem result_eq_ok {d : Derivation} : o.result g tokens = .ok d ↔ ∃ s, o = .accepted s ∧
    d = ⟨s.applied.reverse.map (DerivationStep.ofRule g.alphabet), s.consumed⟩ := by
  cases o with
  | accepted s => simp [result, eq_comm]
  | rejected s expected => simp [result]
  | unfinished s => simp [result]

theorem result_eq_unexpected {fault : SyntaxFault} :
    o.result g tokens = .error (.unexpected fault) ↔ ∃ s expected, o = .rejected s expected ∧
      fault = .after tokens s.consumed expected := by
  cases o with
  | accepted s => simp [result]
  | rejected s expected => simp [result, eq_comm]
  | unfinished s => simp [result]

theorem result_eq_unbounded : o.result g tokens = .error .unbounded ↔ o.isFinished = false := by
  cases o with
  | accepted s => simp [result, isFinished]
  | rejected s expected => simp [result, isFinished]
  | unfinished s => simp [result, isFinished]

end Outcome

end Machine

namespace CompiledGrammar

variable {g : CompiledGrammar} {parsing : ParseOptions} {tokens : List Token} {word : List Code}

/-- A parse says how the run on the word of the significant tokens ends. -/
theorem parse_eq_result (hw : g.Spells parsing.generic (Token.significant tokens) word) :
    g.parse parsing tokens = (Machine.run g parsing.strict
      (Machine.moveLimit g (word ++ [Code.endOfInput]))
      (.initial g (word ++ [Code.endOfInput]))).result g (Token.significant tokens) := by
  have hinput := inputOf_eq_ok.mpr ⟨word, hw, rfl⟩
  simp only [parse, hinput, bind, Except.bind]
  cases Machine.run g parsing.strict (Machine.moveLimit g (word ++ [Code.endOfInput]))
      (.initial g (word ++ [Code.endOfInput])) with
  | accepted s => rfl
  | rejected s expected => rfl
  | unfinished s => rfl

/-- A parse whose input cannot be read says why. -/
theorem parse_eq_error_of_inputOf {e : ParseError}
    (h : g.inputOf parsing.generic (Token.significant tokens) = .error e) :
    g.parse parsing tokens = .error e := by
  simp only [parse, h, bind, Except.bind]

/-- There is no such word only if one of the tokens stands for no terminal, as the parse says. -/
theorem exists_spells_or_unmapped (g : CompiledGrammar) (parsing : ParseOptions)
    (tokens : List Token) :
    (∃ word, g.Spells parsing.generic (Token.significant tokens) word) ∨
      ∃ t ∈ Token.significant tokens,
        g.parse parsing tokens = .error (.unmapped t.lexeme t.kind t.line t.column) := by
  cases hinput : g.inputOf parsing.generic (Token.significant tokens) with
  | ok input =>
    obtain ⟨word, hw, -⟩ := inputOf_eq_ok.mp hinput
    exact Or.inl ⟨word, hw⟩
  | error e =>
    obtain ⟨t, ht, rfl⟩ := eq_unmapped_of_inputOf_eq_error hinput
    exact Or.inr ⟨t, ht, parse_eq_error_of_inputOf hinput⟩

end CompiledGrammar

/-- The rules that a derivation records, by number. -/
theorem Derivation.ruleNumbers_map_ofRule (a : Alphabet) (rules : List Rule) (consumed : Nat) :
    ruleNumbers ⟨rules.map (DerivationStep.ofRule a), consumed⟩ =
      rules.map Rule.number := by
  simp [ruleNumbers, DerivationStep.ofRule, Function.comp_def]

/-- A run from the start records the rules that it applies. -/
theorem Machine.ReachesBy.ruleNumbers_eq {g : CompiledGrammar} {strict : Bool} {numbers : List Nat}
    {input : List Code} {s : State} (h : ReachesBy g strict numbers (.initial g input) s)
    (consumed : Nat) : Derivation.ruleNumbers
      ⟨s.applied.reverse.map (DerivationStep.ofRule g.alphabet), consumed⟩ = numbers := by
  rw [Derivation.ruleNumbers_map_ofRule, List.map_reverse, h.2]
  simp [State.initial]

end PredictiveFrontend

import PredictiveFrontend.Proofs.Derivation.Run
import PredictiveFrontend.Proofs.Derivation.Unrolling
import PredictiveFrontend.Proofs.Grammar.Prediction

/-!
# The move limit is no restriction

A machine that comes to an end at all does so within the move limit: between two terminals read, the
stack is unrolled in front of one lookahead, which bounds the moves and the growth of the stack. So
a parse only gives up on a machine that would go on forever.
-/

namespace PredictiveFrontend

namespace Machine

variable {g : CompiledGrammar} {options : CompileOptions} {strict : Bool}

/-- What a symbol on top is replaced by in front of a lookahead. -/
def expansion? (g : CompiledGrammar) (strict : Bool) (lookahead c : Code) : Option (List Code) :=
  if g.alphabet.isTerminal c then none
  else if lookahead = Code.endOfInput ∧ strict = false then none
  else (g.predicted? c lookahead).map Rule.expansion

theorem expansion?_eq_some {t c : Code} {body : List Code} :
    expansion? g strict t c = some body ↔ g.alphabet.isTerminal c = false ∧
      (t = Code.endOfInput → strict = true) ∧ ∃ r, g.predicted? c t = some r ∧
        r.expansion = body := by
  rw [expansion?]
  cases hc : g.alphabet.isTerminal c with
  | true => simp
  | false =>
    by_cases ht : t = Code.endOfInput ∧ strict = false
    · obtain ⟨rfl, rfl⟩ := ht
      simp
    · have hgo : t = Code.endOfInput → strict = true := by simpa using ht
      rw [if_neg (by simp), if_neg ht, Option.map_eq_some_iff]
      exact ⟨fun hr => ⟨rfl, hgo, hr⟩, fun h => h.2.2⟩

/-- Symbols are replaced by the machine as they are unrolled. -/
theorem transition_of_expansion? {t c : Code} {body stack input : List Code} {applied : List Rule}
    {consumed : Nat} (h : expansion? g strict t c = some body) :
    ∃ r, Transition g strict ⟨c :: stack, t :: input, applied, consumed⟩
      ⟨body ++ stack, t :: input, r :: applied, consumed⟩ := by
  obtain ⟨hc, ht, r, hr, rfl⟩ := expansion?_eq_some.mp h
  exact ⟨r, .expand c t stack input applied consumed r hc ht hr⟩

/-- On a settled stack the machine goes on only by reading. -/
theorem eq_of_transition_of_settled {t : Code} {stack input : List Code} {applied : List Rule}
    {consumed : Nat} {s' : State} (hs : Settled (expansion? g strict t) stack)
    (h : Transition g strict ⟨stack, t :: input, applied, consumed⟩ s') :
    ∃ consumed', s' = ⟨stack.tail, input, applied, consumed'⟩ := by
  cases h with
  | read => exact ⟨_, rfl⟩
  | expand c _ rest _ _ _ r hc ht hr =>
    have hnone := hs c rfl
    rw [expansion?_eq_some.mpr ⟨hc, ht, r, hr, rfl⟩] at hnone
    cases hnone

/-- A machine that comes to an end first unrolls its stack until it is settled. -/
theorem exists_unrolls_of_isFinished {n : Nat} {t : Code} {stack input : List Code}
    {applied : List Rule} {consumed : Nat}
    (h : (run g strict n ⟨stack, t :: input, applied, consumed⟩).isFinished = true) :
    ∃ m result applied', m < n ∧ Unrolls (expansion? g strict t) m stack result ∧
      Settled (expansion? g strict t) result ∧
      ∀ j, run g strict (m + j) ⟨stack, t :: input, applied, consumed⟩ =
        run g strict j ⟨result, t :: input, applied', consumed⟩ := by
  induction n generalizing stack applied with
  | zero => cases h
  | succ n ih =>
    cases stack with
    | nil =>
      exact ⟨0, [], applied, Nat.succ_pos n, .refl _, by simp [Settled], fun j => by
        rw [Nat.zero_add]⟩
    | cons c rest =>
      cases he : expansion? g strict t c with
      | none =>
        exact ⟨0, c :: rest, applied, Nat.succ_pos n, .refl _, by simpa [Settled] using he,
          fun j => by rw [Nat.zero_add]⟩
      | some body =>
        obtain ⟨r, ht⟩ := transition_of_expansion? he
        rw [ht.run_succ] at h
        obtain ⟨m, result, applied', hm, hu, hs, hrun⟩ := ih h
        refine ⟨m + 1, result, applied', Nat.succ_lt_succ hm, .step he hu, hs, fun j => ?_⟩
        rw [Nat.add_right_comm, ht.run_succ, hrun]

section Bound

variable {size width : Nat}
  (hsize : ∀ t c body, expansion? g strict t c = some body → c < size)
  (hwidth : ∀ t c body, expansion? g strict t c = some body → body.length ≤ width)
include hsize hwidth

/-- A machine that comes to an end takes a bounded number of moves for every terminal, if the height
that its stack can still reach is bounded. -/
theorem isFinished_run_of_height {n height : Nat} {stack input : List Code}
    {applied : List Rule} {consumed : Nat}
    (hheight : stack.length + input.length * (width * size) ≤ height)
    (h : (run g strict n ⟨stack, input, applied, consumed⟩).isFinished = true) :
    (run g strict (input.length * (height * (width + 1) ^ size + 1) + 1)
      ⟨stack, input, applied, consumed⟩).isFinished = true := by
  induction input generalizing n stack applied consumed with
  | nil =>
    have haccept : move g strict ⟨stack, [], applied, consumed⟩ = .accept :=
      move_eq_accept.mpr (Or.inr (Or.inl rfl))
    rw [List.length_nil, Nat.zero_mul, run, haccept]
    rfl
  | cons t input ih =>
    obtain ⟨m, result, applied', hm, hu, hs, hrun⟩ := exists_unrolls_of_isFinished h
    obtain ⟨hmoves, hlength⟩ := hu.le_of_settled (hsize t) (hwidth t) hs
    rw [List.length_cons, Nat.succ_mul] at hheight ⊢
    have hm' : m ≤ height * (width + 1) ^ size :=
      hmoves.trans (Nat.mul_le_mul_right _ ((Nat.le_add_right _ _).trans hheight))
    -- What is left for the moves behind the unrolling.
    obtain ⟨k, hk⟩ : ∃ k, input.length * (height * (width + 1) ^ size + 1) +
        (height * (width + 1) ^ size + 1) + 1 = m + (k + 1) ∧
        input.length * (height * (width + 1) ^ size + 1) + 1 ≤ k :=
      ⟨input.length * (height * (width + 1) ^ size + 1) + height * (width + 1) ^ size + 1 - m,
        by omega, by omega⟩
    obtain ⟨j, rfl⟩ : ∃ j, n = m + (j + 1) := ⟨n - m - 1, by omega⟩
    rw [hrun] at h
    rw [hk.1, hrun]
    cases hmove : move g strict ⟨result, t :: input, applied', consumed⟩ with
    | next s' =>
      obtain ⟨consumed', rfl⟩ := eq_of_transition_of_settled hs (move_eq_next.mp hmove)
      rw [run_succ_of_next hmove] at h ⊢
      have htail : result.tail.length ≤ result.length := by simp
      have hend := ih (by omega) h
      rw [run_of_le hend hk.2]
      exact hend
    | accept =>
      rw [run, hmove]
      rfl
    | reject expected =>
      rw [run, hmove]
      rfl

end Bound

theorem length_le_foldl_max {lengths : List Nat} {length : Nat} (start : Nat)
    (h : length ∈ lengths ∨ length ≤ start) : length ≤ lengths.foldl max start := by
  induction lengths generalizing start with
  | nil => simpa using h
  | cons first rest ih =>
    refine ih (max start first) ?_
    rcases h with hm | hle
    · rcases List.mem_cons.mp hm with rfl | hm
      · exact Or.inr (Nat.le_max_right _ _)
      · exact Or.inl hm
    · exact Or.inr (hle.trans (Nat.le_max_left _ _))

/-- No rule is wider than the widest one. -/
theorem length_expansion_le_widestRule {r : Rule} (h : r ∈ g.rules) :
    r.expansion.length ≤ widestRule g := by
  refine (List.length_filter_le _ _).trans (length_le_foldl_max 0 (Or.inl ?_))
  exact List.mem_map.mpr ⟨r, h, rfl⟩

/-- The move limit leaves room for the moves that a machine can take. -/
theorem le_moveLimit (g : CompiledGrammar) (input : List Code) :
    input.length * ((2 + input.length * (widestRule g * g.alphabet.size)) *
      (widestRule g + 1) ^ g.alphabet.size + 1) + 1 ≤ moveLimit g input := by
  have hgrowth : input.length * (widestRule g * g.alphabet.size) ≤
      (input.length + 1) * (g.alphabet.size + 1) * (widestRule g + 1) := by
    rw [Nat.mul_assoc, Nat.mul_comm (g.alphabet.size + 1)]
    exact Nat.mul_le_mul (Nat.le_succ _) (Nat.mul_le_mul (Nat.le_succ _) (Nat.le_succ _))
  have hpow : (widestRule g + 1) ^ g.alphabet.size ≤
      Nat.pow (widestRule g + 1) (g.alphabet.size + 1) :=
    Nat.pow_le_pow_right (Nat.succ_pos _) (Nat.le_succ _)
  have hlimit : moveLimit g input = (input.length + 1) *
      (2 + (input.length + 1) * (g.alphabet.size + 1) * (widestRule g + 1)) *
      (Nat.pow (widestRule g + 1) (g.alphabet.size + 1) + 1) + 1 := rfl
  rw [hlimit]
  generalize Nat.pow (widestRule g + 1) (g.alphabet.size + 1) = power at *
  generalize (input.length + 1) * (g.alphabet.size + 1) * (widestRule g + 1) = growth at *
  refine Nat.succ_le_succ ?_
  rw [Nat.mul_assoc]
  refine Nat.mul_le_mul (Nat.le_succ _) ?_
  rw [Nat.mul_succ]
  exact Nat.add_le_add (Nat.mul_le_mul (Nat.add_le_add_left hgrowth 2) hpow) (by omega)

/-- A machine that comes to an end in front of an input does so within the move limit. -/
theorem isFinished_run_moveLimit (hg : g.CompiledBy options) {input : List Code} {n : Nat}
    (h : (run g strict n (.initial g input)).isFinished = true) :
    (run g strict (moveLimit g input) (.initial g input)).isFinished = true := by
  have hrule : ∀ t c body, expansion? g strict t c = some body →
      ∃ r ∈ g.rules, r.lhs = c ∧ r.expansion = body := by
    intro t c body he
    obtain ⟨-, -, r, hr, hb⟩ := expansion?_eq_some.mp he
    obtain ⟨hm, hl, -⟩ := hg.of_predicted? hr
    exact ⟨r, hm, hl, hb⟩
  have hsize : ∀ t c body, expansion? g strict t c = some body → c < g.alphabet.size := by
    intro t c body he
    obtain ⟨r, hm, rfl, -⟩ := hrule t c body he
    exact hg.wellFormed.lhs_lt hm
  have hwidth : ∀ t c body, expansion? g strict t c = some body →
      body.length ≤ widestRule g := by
    intro t c body he
    obtain ⟨r, hm, -, rfl⟩ := hrule t c body he
    exact length_expansion_le_widestRule hm
  have hend := isFinished_run_of_height hsize hwidth (Nat.le_refl _) h
  exact (run_of_le hend (le_moveLimit g input)).symm ▸ hend

end Machine

namespace CompiledGrammar

variable {g : CompiledGrammar} {options : CompileOptions} {parsing : ParseOptions}
  {tokens : List Token} {word : List Code}

/-- A run that has come to its end, with any number of moves, settles what the parse says. -/
theorem parse_eq_result_of_run (hg : g.CompiledBy options)
    (hw : g.Spells parsing.generic (Token.significant tokens) word) {n : Nat}
    (h : (Machine.run g parsing.strict n
      (.initial g (word ++ [Code.endOfInput]))).isFinished = true) :
    g.parse parsing tokens = (Machine.run g parsing.strict n
      (.initial g (word ++ [Code.endOfInput]))).result g (Token.significant tokens) := by
  have hlimit := Machine.isFinished_run_moveLimit hg h
  rw [parse_eq_result hw, Machine.run_eq_of_isFinished hlimit h]

/-- An accepted run, with any number of moves, makes the parse successful. -/
theorem parse_eq_ok_of_run (hg : g.CompiledBy options)
    (hw : g.Spells parsing.generic (Token.significant tokens) word) {n : Nat} {s : Machine.State}
    (h : Machine.run g parsing.strict n (.initial g (word ++ [Code.endOfInput])) = .accepted s) :
    g.parse parsing tokens =
      .ok ⟨s.applied.reverse.map (DerivationStep.ofRule g.alphabet), s.consumed⟩ := by
  have hend : (Machine.run g parsing.strict n
      (.initial g (word ++ [Code.endOfInput]))).isFinished = true := by
    rw [h]
    rfl
  rw [parse_eq_result_of_run hg hw hend, h]
  rfl

/-- A parse gives up exactly on a machine that never comes to an end. -/
theorem parse_eq_unbounded_iff (hg : g.CompiledBy options)
    (hw : g.Spells parsing.generic (Token.significant tokens) word) :
    g.parse parsing tokens = .error .unbounded ↔ ∀ n, (Machine.run g parsing.strict n
      (.initial g (word ++ [Code.endOfInput]))).isFinished = false := by
  rw [parse_eq_result hw, Machine.Outcome.result_eq_unbounded]
  constructor
  · intro hlimit n
    refine Bool.eq_false_iff.mpr fun hend => ?_
    rw [Machine.isFinished_run_moveLimit hg hend] at hlimit
    cases hlimit
  · exact fun h => h _

end CompiledGrammar

end PredictiveFrontend

import PredictiveFrontend.Proofs.Grammar.Table

/-!
# The grammars that are refused

To refuse conflicts and to let later claims take over lead to the same table as long as nothing is
overwritten, and the conflict that is refused is the first overwrite that would be logged. Nothing
is overwritten exactly if no terminal predicts two rules of one nonterminal.
-/

namespace PredictiveFrontend

/-- No terminal predicts two rules of one nonterminal. -/
def Grammar.LL1 (g : Grammar) (strategy : FollowStrategy) : Prop :=
  ∀ r ∈ g.rules, ∀ r' ∈ g.rules, r ≠ r' → r.lhs = r'.lhs →
    ∀ t ∈ r.predict g.first (g.follow strategy g.first),
      t ∉ r'.predict g.first (g.follow strategy g.first)

/-- Nothing goes from hand to hand if there is only one hand. -/
theorem Overwrite.chain_eq_nil {nonterminal lookahead : Code} {numbers : List Nat}
    (h : numbers.Pairwise (· < ·)) :
    chain nonterminal lookahead numbers = [] ↔ ∀ m ∈ numbers, ∀ n ∈ numbers, m = n := by
  match numbers with
  | [] => simp [chain]
  | [_] => simp [chain]
  | m :: n :: rest =>
    have hlt : m < n := (List.pairwise_cons.mp h).1 n (List.mem_cons_self ..)
    constructor
    · intro hnil
      cases hnil
    · intro hone
      have he := hone m (List.mem_cons_self ..) n (List.mem_cons_of_mem _ (List.mem_cons_self ..))
      exact absurd he (Nat.ne_of_lt hlt)

/-- A log is empty if it is empty for every entry. -/
theorem PredictionTable.overwrites_eq_nil {t : PredictionTable} :
    t.overwrites = [] ↔ ∀ nonterminal lookahead, t.overwritesAt nonterminal lookahead = [] := by
  constructor
  · intro h nonterminal lookahead
    rw [overwritesAt, h, List.filter_nil]
  · intro h
    rw [List.eq_nil_iff_forall_not_mem]
    intro o ho
    have hmem : o ∈ t.overwritesAt o.nonterminal o.lookahead :=
      List.mem_filter.mpr ⟨ho, by simp⟩
    rw [h] at hmem
    cases hmem

namespace CompiledGrammar

variable {g : CompiledGrammar} {strategy : FollowStrategy}

/-- Nothing is overwritten exactly if no terminal predicts two rules of one nonterminal. -/
theorem CompiledBy.overwrites_eq_nil (hg : g.CompiledBy ⟨.lastWriteWins, strategy⟩) :
    g.table.overwrites = [] ↔ g.toGrammar.LL1 strategy := by
  have hchain : ∀ nonterminal lookahead, g.table.overwritesAt nonterminal lookahead = [] ↔
      ∀ m ∈ Rule.candidates g.first g.follow g.rules nonterminal lookahead,
        ∀ n ∈ Rule.candidates g.first g.follow g.rules nonterminal lookahead, m = n := by
    intro nonterminal lookahead
    rw [(hg.get?_table nonterminal lookahead).2]
    exact Overwrite.chain_eq_nil
      (hg.wellFormed.pairwise_candidates g.first g.follow nonterminal lookahead)
  rw [PredictionTable.overwrites_eq_nil, Grammar.LL1, ← hg.first_eq, ← hg.follow_eq]
  constructor
  · intro h r hr r' hr' hne hl t ht ht'
    have hnumber : r.number = r'.number := (hchain r.lhs t).mp (h r.lhs t)
      _ (Rule.mem_candidates.mpr ⟨r, hr, rfl, rfl, ht⟩)
      _ (Rule.mem_candidates.mpr ⟨r', hr', rfl, hl.symm, ht'⟩)
    have hrule := hg.wellFormed.rule?_number hr
    rw [hnumber, hg.wellFormed.rule?_number hr'] at hrule
    exact hne (Option.some.inj hrule).symm
  · intro h nonterminal lookahead
    rw [hchain]
    intro m hm n hn
    obtain ⟨r, hr, rfl, rfl, ht⟩ := Rule.mem_candidates.mp hm
    obtain ⟨r', hr', rfl, hl, ht'⟩ := Rule.mem_candidates.mp hn
    by_cases he : r = r'
    · rw [he]
    · exact absurd ht' (h r hr r' hr' he hl.symm lookahead ht)

/-- What comes of a text if conflicts are refused can be told from the table in which later claims
take over. -/
theorem ofText_reject {text : String} (h : ofText text ⟨.lastWriteWins, strategy⟩ = .ok g) :
    ofText text ⟨.reject, strategy⟩ =
      match g.table.overwrites with
      | [] => .ok g
      | o :: _ => .error (.conflict (g.name o.nonterminal) (g.name o.lookahead) o.existing
          o.replacement) := by
  simp only [ofText, ofGrammar, bind_eq_ok, map_eq_ok] at h
  obtain ⟨grammar, hgrammar, table, htable, rfl⟩ := h
  cases htable
  simp only [ofText, hgrammar, bind, Except.bind, ofGrammar, Grammar.predictionTable]
  rw [PredictionTable.putAllOrConflict_eq rfl, PredictionTable.orFirstOverwrite]
  cases hlog : PredictionTable.overwrites _ with
  | nil => rfl
  | cons o later => rfl

/-- For every grammar text that is read, and both ways to compute FOLLOW sets: if conflicts are
refused, the text compiles exactly if no terminal predicts two rules of one nonterminal. Then it
compiles to the same grammar as if later claims took over, and nothing would be overwritten;
otherwise the error names the first overwrite that would be logged. -/
theorem reject_exact {text : String} {grammar : Grammar} (h : Grammar.ofText text = .ok grammar)
    (strategy : FollowStrategy) :
    ∃ g, ofText text ⟨.lastWriteWins, strategy⟩ = .ok g ∧ g.toGrammar = grammar ∧
      ((∃ g', ofText text ⟨.reject, strategy⟩ = .ok g') ↔ grammar.LL1 strategy) ∧
      (∀ g', ofText text ⟨.reject, strategy⟩ = .ok g' →
        g' = g ∧ g.table.overwrites = []) ∧
      ∀ e, ofText text ⟨.reject, strategy⟩ = .error e →
        ∃ o, g.table.overwrites.head? = some o ∧
          e = .conflict (g.name o.nonterminal) (g.name o.lookahead) o.existing o.replacement := by
  obtain ⟨g, hg, rfl⟩ := exists_ofText_lastWriteWins h strategy
  refine ⟨g, hg, rfl, ?_⟩
  rw [← (compiledBy_of_ofText hg).overwrites_eq_nil, ofText_reject hg]
  cases hlog : g.table.overwrites with
  | nil =>
    refine ⟨?_, ?_, ?_⟩
    · simp
    · intro g' hg'
      cases hg'
      exact ⟨rfl, rfl⟩
    · intro e he
      cases he
  | cons o later =>
    refine ⟨?_, ?_, ?_⟩
    · simp
    · intro g' hg'
      cases hg'
    · intro e he
      cases he
      exact ⟨o, rfl, rfl⟩

/-- Three rules compete for `A` and `a`, and the second of them is refused. -/
theorem reject_exact_contested :
    Grammar.ofText contestedText = .ok contested ∧ ¬contested.LL1 .fixedPoint ∧
      ofText contestedText ⟨.reject, .fixedPoint⟩ = .error (.conflict "A" "a" 1 2) ∧
      ∃ g, ofText contestedText ⟨.lastWriteWins, .fixedPoint⟩ = .ok g ∧
        ∃ o, g.table.overwrites.head? = some o ∧ g.name o.nonterminal = "A" ∧
          g.name o.lookahead = "a" ∧ o.existing = 1 ∧ o.replacement = 2 := by
  have hrun : (ofText contestedText ⟨.reject, .fixedPoint⟩).map (fun g => g.start) =
      .error (.conflict "A" "a" 1 2) := by
    decide +kernel
  have hrefused := map_eq_error.mp hrun
  obtain ⟨g, hg, -, hcompiles, -, hconflict⟩ := reject_exact ofText_contestedText .fixedPoint
  refine ⟨ofText_contestedText, ?_, hrefused, g, hg, ?_⟩
  · rw [← hcompiles, hrefused]
    rintro ⟨g', hg'⟩
    cases hg'
  · obtain ⟨o, ho, he⟩ := hconflict _ hrefused
    obtain ⟨hn, ht, hexisting, hreplacement⟩ := GrammarError.conflict.inj he
    exact ⟨o, ho, hn.symm, ht.symm, hexisting.symm, hreplacement.symm⟩

end CompiledGrammar

end PredictiveFrontend

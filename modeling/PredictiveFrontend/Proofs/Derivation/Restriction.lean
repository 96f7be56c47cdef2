import PredictiveFrontend.Proofs.Derivation.Lockstep
import PredictiveFrontend.Proofs.Grammar.Conflict

/-!
# Fewer entries

A table that holds only entries of another one lets the machine go on only where the other table
does, by the same rules. The two machines then accept in the same states, so the one with fewer
entries accepts what it does not reject. The guarded walk finds no more than the repetition does, so
its table is such a one, and it holds no conflict that the other one does not.
-/

namespace PredictiveFrontend

namespace Grammar

variable {g : Grammar} {first : SetFamily g.alphabet.size}

/-- Under both strategies a terminal predicts a rule only if it does so by repetition. -/
theorem mem_predict_fixedPoint (wf : g.WellFormed) {strategy : FollowStrategy} {r : Rule} {t : Code}
    (h : t ∈ r.predict first (g.follow strategy first)) :
    t ∈ r.predict first (g.follow .fixedPoint first) := by
  rcases Rule.mem_predict.mp h with hfirst | ⟨he, ht⟩
  · exact Rule.mem_predict.mpr (Or.inl hfirst)
  · have hfollow := Follow.mem_followFixedPoint_of_mem_follow wf strategy ht
    exact Rule.mem_predict.mpr (Or.inr ⟨he, hfollow⟩)

/-- Under both strategies a claim is also made by repetition. -/
theorem mem_claims_fixedPoint (wf : g.WellFormed) {strategy : FollowStrategy} {e : TableEntry}
    (h : e ∈ g.claims first (g.follow strategy first)) :
    e ∈ g.claims first (g.follow .fixedPoint first) := by
  obtain ⟨r, hr, he⟩ := List.mem_flatMap.mp h
  obtain ⟨hl, hn, ht⟩ := Rule.mem_claims.mp he
  exact List.mem_flatMap.mpr
    ⟨r, hr, Rule.mem_claims.mpr ⟨hl, hn, mem_predict_fixedPoint wf ht⟩⟩

/-- Without conflicts by repetition there are none under both strategies. -/
theorem LL1.of_fixedPoint (wf : g.WellFormed) (h : g.LL1 .fixedPoint) (strategy : FollowStrategy) :
    g.LL1 strategy := by
  intro r hr r' hr' hne hl t ht ht'
  exact h r hr r' hr' hne hl t (mem_predict_fixedPoint wf ht) (mem_predict_fixedPoint wf ht')

end Grammar

namespace CompiledGrammar

/-- One grammar compiled twice, with no entry in the first table that is not in the second one. -/
structure Narrows (g' g : CompiledGrammar) : Prop where
  /-- The grammars are one and the same. -/
  toGrammar_eq : g'.toGrammar = g.toGrammar
  /-- The first table has no other entries. -/
  get?_table : ∀ nonterminal lookahead rule, g'.table.get? nonterminal lookahead = some rule →
    g.table.get? nonterminal lookahead = some rule

namespace Narrows

variable {g g' : CompiledGrammar} {generic : GenericTerminals} {tokens : List Token}

/-- Tokens stand for the same word. -/
theorem spells_iff (h : Narrows g' g) {word : List Code} :
    g'.Spells generic tokens word ↔ g.Spells generic tokens word := by
  obtain ⟨grammar, first, follow, table⟩ := g
  obtain ⟨grammar', first', follow', table'⟩ := g'
  obtain rfl : grammar' = grammar := h.toGrammar_eq
  exact Iff.rfl

/-- The machines begin alike. -/
theorem initial_eq (h : Narrows g' g) (input : List Code) :
    Machine.State.initial g' input = .initial g input := by
  rw [Machine.State.initial, Machine.State.initial, h.toGrammar_eq]

/-- No other rules are predicted. -/
theorem predicted? (h : Narrows g' g) {nonterminal lookahead : Code} {r : Rule}
    (hr : g'.predicted? nonterminal lookahead = some r) :
    g.predicted? nonterminal lookahead = some r := by
  obtain ⟨rule, hget, hrule⟩ := Option.bind_eq_some_iff.mp hr
  rw [h.toGrammar_eq] at hrule
  exact Option.bind_eq_some_iff.mpr ⟨rule, h.get?_table _ _ _ hget, hrule⟩

/-- The machine goes along with the other one. -/
theorem goesAlong (h : Narrows g' g) (strict : Bool) : Machine.GoesAlong g' strict g strict := by
  intro s s' ht
  cases ht with
  | read c stack input applied consumed hc =>
    rw [h.toGrammar_eq] at hc
    exact .read c stack input applied consumed hc
  | expand c t stack input applied consumed r hc ht hr =>
    rw [h.toGrammar_eq] at hc
    exact .expand c t stack input applied consumed r hc ht (h.predicted? hr)

/-- The machines accept in the same states. -/
theorem move_eq_accept_iff (h : Narrows g' g) {strict : Bool} {s : Machine.State} :
    Machine.move g' strict s = .accept ↔ Machine.move g strict s = .accept := by
  rw [Machine.move_eq_accept, Machine.move_eq_accept, h.toGrammar_eq]

variable {options : CompileOptions} {parsing : ParseOptions} {d : Derivation}

/-- What is parsed by fewer entries is parsed alike by more. -/
theorem parse_eq_ok (h : Narrows g' g) (hg : g.CompiledBy options)
    (hd : g'.parse parsing tokens = .ok d) : g.parse parsing tokens = .ok d := by
  obtain ⟨word, n, s, hw, hrun, rfl⟩ := exists_run_of_parse_eq_ok hd
  obtain ⟨hreach, haccept⟩ := Machine.reaches_of_run_eq_accepted hrun
  rw [h.initial_eq] at hreach
  obtain ⟨m, hm⟩ := ((h.goesAlong _).reaches hreach).exists_run_eq_accepted
    (h.move_eq_accept_iff.mp haccept)
  rw [parse_eq_ok_of_run hg (h.spells_iff.mp hw) hm, h.toGrammar_eq]

/-- What is parsed by more entries is parsed alike by fewer, or there is a token for which an entry
is missing. -/
theorem parse_eq_ok_or_unexpected (h : Narrows g' g) (hg : g.CompiledBy options)
    {options' : CompileOptions} (hg' : g'.CompiledBy options')
    (hd : g.parse parsing tokens = .ok d) :
    g'.parse parsing tokens = .ok d ∨
      ∃ fault, g'.parse parsing tokens = .error (.unexpected fault) := by
  obtain ⟨word, n, s, hw, hrun, -⟩ := exists_run_of_parse_eq_ok hd
  have hend : (Machine.run g' parsing.strict n
      (.initial g' (word ++ [Code.endOfInput]))).isFinished = true := by
    rw [h.initial_eq]
    refine (h.goesAlong _).isFinished_run ?_
    rw [hrun]
    rfl
  have hparse := parse_eq_result_of_run hg' (h.spells_iff.mpr hw) hend
  cases ho : Machine.run g' parsing.strict n (.initial g' (word ++ [Code.endOfInput])) with
  | accepted s' =>
    rw [ho] at hparse
    have hboth := h.parse_eq_ok hg hparse
    rw [hd] at hboth
    exact Or.inl (hparse.trans hboth.symm)
  | rejected s' expected =>
    rw [ho] at hparse
    exact Or.inr ⟨_, hparse⟩
  | unfinished s' =>
    rw [ho] at hend
    cases hend

end Narrows

variable {g g' : CompiledGrammar}

/-- If conflicts are refused, a grammar that is read compiles exactly if there are none. -/
theorem exists_ofText_reject_iff {text : String} {grammar : Grammar}
    (h : Grammar.ofText text = .ok grammar) (strategy : FollowStrategy) :
    (∃ g, ofText text ⟨.reject, strategy⟩ = .ok g) ↔ grammar.LL1 strategy := by
  obtain ⟨g, hg, rfl⟩ := exists_ofText_lastWriteWins h strategy
  rw [← (compiledBy_of_ofText hg).overwrites_eq_nil, ofText_reject hg]
  cases g.table.overwrites with
  | nil => simp
  | cons o later => simp

theorem ofText_toGrammar {text : String} {options : CompileOptions}
    (h : ofText text options = .ok g) : Grammar.ofText text = .ok g.toGrammar := by
  simp only [ofText, ofGrammar, bind_eq_ok, map_eq_ok] at h
  obtain ⟨grammar, hgrammar, table, -, rfl⟩ := h
  exact hgrammar

/-- By repetition no entry is missing that another way finds. -/
theorem CompiledBy.narrows {options : CompileOptions} (hg' : g'.CompiledBy options)
    (hg : g.CompiledBy ⟨.reject, .fixedPoint⟩) (h : g'.toGrammar = g.toGrammar) :
    Narrows g' g := by
  refine ⟨h, fun nonterminal lookahead rule hr => ?_⟩
  have hclaim := Grammar.mem_claims_of_predictionTable hg'.table_eq hr
  rw [hg'.follow_eq, hg'.first_eq, h] at hclaim
  have hrepeated := Grammar.mem_claims_fixedPoint hg.wellFormed hclaim
  have htable := hg.table_eq
  rw [hg.follow_eq, hg.first_eq] at htable
  exact Grammar.get?_of_mem_claims htable hrepeated

/-- Every grammar text that compiles without conflicts by repetition does so by the guarded walk as
well. The table then holds no other entries, so whatever is parsed is parsed alike by repetition;
what is parsed by repetition is parsed alike by the guarded walk, or is a syntax error. -/
theorem guarded_restricts_fixedPoint {text : String}
    (h : ofText text ⟨.reject, .fixedPoint⟩ = .ok g) :
    ∃ g', ofText text ⟨.reject, .guardedRecursion⟩ = .ok g' ∧ g'.toGrammar = g.toGrammar ∧
      (∀ e ∈ g'.table.entries, e ∈ g.table.entries) ∧
      ∀ parsing tokens,
        (∀ d, g'.parse parsing tokens = .ok d → g.parse parsing tokens = .ok d) ∧
        ∀ d, g.parse parsing tokens = .ok d →
          g'.parse parsing tokens = .ok d ∨
            ∃ fault, g'.parse parsing tokens = .error (.unexpected fault) := by
  have hg := compiledBy_of_ofText h
  have hread := ofText_toGrammar h
  have hLL1 := (exists_ofText_reject_iff hread .fixedPoint).mp ⟨g, h⟩
  obtain ⟨g', h'⟩ := (exists_ofText_reject_iff hread .guardedRecursion).mpr
    (hLL1.of_fixedPoint hg.wellFormed .guardedRecursion)
  have hg' := compiledBy_of_ofText h'
  have hgrammar : g'.toGrammar = g.toGrammar :=
    Except.ok.inj ((ofText_toGrammar h').symm.trans hread)
  have hnarrows := hg'.narrows hg hgrammar
  refine ⟨g', h', hgrammar, fun e he => ?_, fun parsing tokens => ⟨fun d hd => ?_, fun d hd => ?_⟩⟩
  · exact hg.mem_entries_table.mpr (hnarrows.get?_table _ _ _ (hg'.mem_entries_table.mp he))
  · exact hnarrows.parse_eq_ok hg hd
  · exact hnarrows.parse_eq_ok_or_unexpected hg hg' hd

/-- Nonterminals that end in a circle: what follows `X` follows `Y`, `Z` and `W`, and what follows
`W` follows `X`. -/
def circleText : String :=
  "S -> Y | x A\nW -> u X | EPSILON\nX -> Y\nY -> Z\nZ -> W\nA -> X t"

/-- The grammar of that text; `t` has code 10. -/
def circle : Grammar where
  alphabet := ⟨["EPSILON", "$", "S", "Y", "x", "A", "W", "u", "X", "Z", "t"]⟩
  rules := [⟨0, 2, [3]⟩, ⟨1, 2, [4, 5]⟩, ⟨2, 6, [7, 8]⟩, ⟨3, 6, [0]⟩, ⟨4, 8, [3]⟩, ⟨5, 3, [9]⟩,
    ⟨6, 9, [6]⟩, ⟨7, 5, [8, 10]⟩]
  start := 2

/-- What the guarded walk finds behind its nonterminals: `t` misses `W`. -/
def circleFollow : SetFamily circle.alphabet.size :=
  .ofFn fun c =>
    if c ∈ [2, 5, 6] then .singleton Code.endOfInput
    else if c ∈ [3, 8, 9] then .singleton Code.endOfInput ∪ .singleton 10
    else ∅

/-- The guarded walk does not find that `t` follows `W`: `x t` is parsed only by repetition, `u`
alike by both. -/
theorem guarded_restricts_fixedPoint_circle :
    ∃ g g' d d' fault, ofText circleText ⟨.reject, .fixedPoint⟩ = .ok g ∧
      ofText circleText ⟨.reject, .guardedRecursion⟩ = .ok g' ∧
      (∀ e ∈ g'.table.entries, e ∈ g.table.entries) ∧
      g'.parse {} (letterTokens ["u"]) = .ok d ∧ g.parse {} (letterTokens ["u"]) = .ok d ∧
      d.ruleNumbers = [0, 5, 6, 2] ∧ g.parse {} (letterTokens ["x", "t"]) = .ok d' ∧
      g'.parse {} (letterTokens ["x", "t"]) = .error (.unexpected fault) := by
  have hgrammar : Grammar.ofText circleText = .ok circle := by decide +kernel
  have hrun : (ofText circleText ⟨.reject, .fixedPoint⟩).map (fun g =>
      (g.parse {} (letterTokens ["x", "t"])).map Derivation.ruleNumbers) =
        .ok (.ok [1, 7, 4, 5, 6, 3]) := by
    decide +kernel
  have hguarded : (circle.predictionTable circle.first circleFollow .reject).map (fun table =>
      let g' : CompiledGrammar := ⟨circle, circle.first, circleFollow, table⟩
      ((g'.parse {} (letterTokens ["u"])).map Derivation.ruleNumbers,
        (g'.parse {} (letterTokens ["x", "t"])).toOption)) = .ok (.ok [0, 5, 6, 2], none) := by
    decide +kernel
  obtain ⟨g, hg, hboth⟩ := map_eq_ok.mp hrun
  obtain ⟨d', hd', -⟩ := map_eq_ok.mp hboth
  obtain ⟨table, hcompiled⟩ := exists_ofText_guarded hgrammar 60 circleFollow
    (by decide +kernel) (by decide +kernel)
  obtain ⟨g', hg', -, hentries, hparse⟩ := guarded_restricts_fixedPoint hg
  obtain rfl : _ = g' := Except.ok.inj (hcompiled.symm.trans hg')
  rw [(compiledBy_of_ofText hcompiled).table_eq] at hguarded
  obtain ⟨hshort, hmissing⟩ := Prod.mk.inj (Except.ok.inj hguarded)
  obtain ⟨d, hd, hnumbers⟩ := map_eq_ok.mp hshort
  rcases (hparse {} _).2 d' hd' with hok | ⟨fault, hfault⟩
  · rw [hok] at hmissing
    cases hmissing
  · exact ⟨g, _, d, d', fault, hg, hg', hentries, hd, (hparse {} _).1 d hd, hnumbers, hd', hfault⟩

end CompiledGrammar

end PredictiveFrontend

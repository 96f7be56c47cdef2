import PredictiveFrontend.Proofs.Derivation.Completeness
import PredictiveFrontend.Proofs.Scope.Closing
import PredictiveFrontend.Proofs.Scope.Forecast
import PredictiveFrontend.Proofs.Token.Scan

/-!
# The symbol table of a program agrees with its derivation

The reader of symbols knows no grammar, but on the tokens of a derived word it does what the
derivation forecasts: it meets every closing brace with a scope to close, and it declares a name
once for every rule that declares one. So the symbol table of a program that is parsed has a scope
for every opening brace, and all of them are closed.
-/

namespace PredictiveFrontend

/-- Tokens of a kind that the grammar sees are counted among those it sees. -/
theorem Token.countP_significant {kind : TokenKind} (h : kind.isSignificant = true)
    (tokens : List Token) :
    (significant tokens).countP (·.kind == kind) = tokens.countP (·.kind == kind) := by
  rw [significant, List.countP_filter]
  refine List.countP_congr fun t _ => ?_
  rw [Bool.and_eq_true, beq_iff_eq, and_iff_left_iff_imp]
  rintro rfl
  exact h

/-- The tokens of a word lead a forecast where its derivation leads it, with the names that the rules
declare. -/
theorem Forecast.afterTokens_of_unfolds {g : CompiledGrammar} {options : CompileOptions}
    {f f' : Forecast} (hg : bundledGrammar options = .ok g) {symbols word : List Code}
    {rules : List Rule} (h : g.Unfolds symbols rules word) {tokens : List Token}
    (hspells : g.Spells {} tokens word) (hsignificant : ∀ t ∈ tokens, t.isSignificant = true)
    (hrecognized : ∀ t ∈ tokens, ∃ text, recognize text = some (t.kind, t.lexeme.toList))
    (hforecast : f.afterAll (symbols.map g.name) = some f') :
    f.afterTokens tokens =
      some (f'.add 0 (rules.countP fun rule => g.name rule.lhs ∈ declaringNames)) := by
  induction h generalizing tokens f f' with
  | nil =>
    cases hspells
    cases hforecast
    rfl
  | @read c _ _ _ hc _ ih =>
    obtain ⟨middle, hmiddle, hrest⟩ := afterAll_cons.mp hforecast
    have hname : SymbolKind.ofName (g.name c) = .terminal := beq_iff_eq.mp hc
    rw [after_of_terminal hname] at hmiddle
    obtain ⟨kind, hkind, hterminal⟩ := Option.bind_eq_some_iff.mp hmiddle
    cases hspells with
    | cons ht hspells =>
      obtain ⟨hsignificant, hsignificants⟩ := List.forall_mem_cons.mp hsignificant
      obtain ⟨⟨text, hrecognize⟩, hrecognized⟩ := List.forall_mem_cons.mp hrecognized
      obtain ⟨kind', hkind', hstands⟩ :=
        CompiledGrammar.exists_ofTerminal?_of_terminalOf hg hrecognize hsignificant ht
      obtain rfl := Option.some.inj (hkind.symm.trans hkind')
      exact afterTokens_cons.mpr ⟨middle, terminal_of_standsFor hstands hterminal,
        ih hspells hsignificants hrecognized hrest⟩
  | @expand rule rest _ rules hrule _ ih =>
    obtain ⟨middle, hmiddle, hrest⟩ := afterAll_cons.mp hforecast
    have hexpansion := afterAll_expansion hg hrule hmiddle
    -- The name that the rule declares is in the forecast of its right side.
    have hadd := afterAll_add hrest 0 (if g.name rule.lhs ∈ declaringNames then 1 else 0)
    have hall := afterAll_append.mpr ⟨_, hexpansion, hadd⟩
    rw [← List.map_append] at hall
    rw [ih hspells hsignificant hrecognized hall, List.countP_cons]
    simp only [add, decide_eq_true_eq, Nat.add_zero, Nat.add_assoc, Nat.add_comm]

namespace SymbolReader

/-- A reader is where a forecast says. -/
structure Follows (r : SymbolReader) (f : Forecast) : Prop where
  phase_eq : r.state.phase = f.phase
  /-- The open scopes are those of open braces, and that of a function in front of its body. -/
  depth_eq : r.scopes.outer.length = f.depth + f.phase.unbraced

/-- Tokens lead a reader from one forecast to another. The names declared are those of the forecasts
and as many as some rules declare. -/
def ReadsAlong (r : SymbolReader) (f f' : Forecast) (tokens : List Token) (declaring : Nat) :
    Prop :=
  (tokens.foldl step r).Follows f' ∧
    ∃ declared, f.declared + declared = f'.declared + declaring ∧
      Reads r (tokens.foldl step r) (tokens.countP (·.kind == .openCurly))
        (tokens.countP (·.kind == .closeCurly)) declared

variable {r : SymbolReader} {f f' : Forecast}

/-- A token that the grammar sees is read as forecast. -/
theorem step_of_terminal {t : Token} (hr : r.Sound) (hf : r.Follows f)
    (ht : t.isSignificant = true) (h : f.terminal t.kind = some f') :
    (r.step t).Follows f' ∧ ∃ declared, f.declared + declared = f'.declared ∧
      Reads r (r.step t) (t.kind == .openCurly).toNat (t.kind == .closeCurly).toNat declared := by
  simp only [Forecast.terminal, Option.bind_eq_some_iff, Option.map_eq_some_iff] at h
  obtain ⟨⟨phase, declared⟩, hphase, depth, hdepth, rfl⟩ := h
  obtain ⟨hpositive, hbraces⟩ := Forecast.depthBehind_eq_some hdepth
  have hclose : t.kind = .closeCurly → 0 < r.scopes.outer.length := by
    intro hk
    rw [hf.depth_eq]
    exact Nat.add_pos_left (hpositive hk) _
  rw [← hf.phase_eq] at hphase
  have hsound : Sound { r with lastLine := t.line, lastColumn := t.endIndex + 1 } :=
    ⟨hr.lt_size, hr.kindName_mem⟩
  obtain ⟨hbehind, hreads⟩ := read_goesOn hsound hphase hclose
  rw [step, if_pos ht]
  refine ⟨⟨hbehind, ?_⟩, declared, rfl, hreads.sound, hreads.size_eq, hreads.depth_eq,
    hreads.attempts_eq⟩
  have hscopes := hreads.depth_eq
  have hin := hf.depth_eq
  rw [← hf.phase_eq] at hin
  simp only [hbehind] at hscopes ⊢
  omega

theorem ReadsAlong.nil (hr : r.Sound) (hf : r.Follows f) : r.ReadsAlong f f [] 0 :=
  ⟨hf, 0, rfl, .refl hr⟩

/-- A token in front of others. -/
theorem ReadsAlong.cons {t : Token} {tokens : List Token} {middle : Forecast} {declaring : Nat}
    (hr : r.Sound) (hf : r.Follows f) (ht : t.isSignificant = true)
    (h : f.terminal t.kind = some middle)
    (hrest : (r.step t).Sound → (r.step t).Follows middle →
      (r.step t).ReadsAlong middle f' tokens declaring) :
    r.ReadsAlong f f' (t :: tokens) declaring := by
  obtain ⟨hfollows, first, hfirst, hreads⟩ := step_of_terminal hr hf ht h
  obtain ⟨hbehind, others, hothers, hreads'⟩ := hrest hreads.sound hfollows
  have hcount : ∀ p : Token → Bool, (t :: tokens).countP p = (p t).toNat + tokens.countP p := by
    intro p
    rw [List.countP_cons, Nat.add_comm]
    cases p t <;> rfl
  refine ⟨hbehind, first + others, by omega, ?_⟩
  rw [hcount, hcount]
  exact hreads.trans hreads'

/-- Tokens that the grammar sees are read as forecast. -/
theorem readsAlong_of_afterTokens {tokens : List Token} (hr : r.Sound) (hf : r.Follows f)
    (hsignificant : ∀ t ∈ tokens, t.isSignificant = true) (h : f.afterTokens tokens = some f') :
    r.ReadsAlong f f' tokens 0 := by
  induction tokens generalizing r f with
  | nil =>
    cases h
    exact .nil hr hf
  | cons t tokens ih =>
    obtain ⟨middle, hmiddle, hrest⟩ := Forecast.afterTokens_cons.mp h
    obtain ⟨ht, hsignificant⟩ := List.forall_mem_cons.mp hsignificant
    exact .cons hr hf ht hmiddle fun hr hf => ih hr hf hsignificant hrest

/-- The tokens of a word lead a reader where its derivation leads the forecast. -/
theorem readsAlong_of_unfolds {g : CompiledGrammar} {options : CompileOptions}
    (hg : bundledGrammar options = .ok g) {symbols word : List Code}
    {rules : List Rule} (h : g.Unfolds symbols rules word) {tokens : List Token}
    (hspells : g.Spells {} tokens word) (hsignificant : ∀ t ∈ tokens, t.isSignificant = true)
    (hrecognized : ∀ t ∈ tokens, ∃ text, recognize text = some (t.kind, t.lexeme.toList))
    (hr : r.Sound) (hf : r.Follows f) (hforecast : f.afterAll (symbols.map g.name) = some f') :
    r.ReadsAlong f f' tokens (rules.countP fun rule => g.name rule.lhs ∈ declaringNames) := by
  have hafter := Forecast.afterTokens_of_unfolds hg h hspells hsignificant hrecognized hforecast
  obtain ⟨hfollows, declared, hdeclared, hreads⟩ :=
    readsAlong_of_afterTokens hr hf hsignificant hafter
  exact ⟨⟨hfollows.phase_eq, hfollows.depth_eq⟩, declared, hdeclared, hreads⟩

/-- Auxiliary tokens do not matter. -/
theorem foldl_step_significant (tokens : List Token) (r : SymbolReader) :
    (Token.significant tokens).foldl step r = tokens.foldl step r := by
  rw [Token.significant, List.foldl_filter]
  congr 1
  funext r t
  by_cases ht : t.isSignificant = true
  · rw [if_pos ht]
  · rw [if_neg ht, step, if_neg ht]

/-- Where no scope is open but the global one there is none to be closed at the end. -/
theorem finish_of_outer_eq_nil (hrooted : r.scopes.Rooted) (h : r.scopes.outer = []) :
    r.finish = ⟨r.scopes, r.diagnostics⟩ := by
  rw [finish, closeRemaining_of_cursor_eq_zero (hrooted.cursor_eq_zero h)]

end SymbolReader

namespace SymbolTable

/-- The symbol table of a program that the strict parse accepts has one scope for every opening
brace beside the global one, no brace and no scope is left without its partner, and the names
declared in it, second declarations included, are those that the rules of the derivation declare. -/
theorem agrees_with_derivation {source : String} {tokens : List Token} {g : CompiledGrammar}
    {d : Derivation} (htokens : Token.ofSource source = .ok tokens)
    (hg : bundledGrammar {} = .ok g) (hparse : g.parse ⟨true, {}⟩ tokens = .ok d) :
    (∀ e ∈ (ofTokens tokens).diagnostics,
      e.kindName ≠ "UnbalancedBrace" ∧ e.kindName ≠ "UnclosedScope") ∧
    (ofTokens tokens).scopes.size = 1 + tokens.countP (·.kind == .openCurly) ∧
    (ofTokens tokens).scopes.declarationCount +
        (ofTokens tokens).diagnostics.countP (·.kindName == "Duplicate") =
      d.steps.countP fun step => step.lhs ∈ declaringNames := by
  obtain ⟨word, rules, hspells, hunfolds, hsteps⟩ :=
    CompiledGrammar.exists_unfolds_of_parse (CompiledGrammar.compiledBy_of_ofText hg) (by decide)
      hparse
  have hforecast : (⟨.code, 0, 0⟩ : Forecast).afterAll ([g.start].map g.name) =
      some ⟨.code, 0, 0⟩ := by
    rw [List.map_singleton, (eq_of_bundledGrammar hg).2.2]
    decide +kernel
  obtain ⟨hfollows, declared, hdeclared, hreads⟩ :=
    SymbolReader.readsAlong_of_unfolds hg hunfolds hspells
      (fun t ht => (List.mem_filter.mp ht).2)
      (fun t ht => Token.exists_recognize_of_mem htokens (List.mem_filter.mp ht).1
        (List.mem_filter.mp ht).2)
      .initial ⟨rfl, rfl⟩ hforecast
  rw [SymbolReader.foldl_step_significant] at hfollows hreads
  rw [ofTokens, SymbolReader.finish_of_outer_eq_nil
    (SymbolReader.rooted_foldl_step tokens SymbolReader.rooted_initial)
    (List.eq_nil_of_length_eq_zero hfollows.depth_eq)]
  refine ⟨fun e he => ?_, ?_, ?_⟩
  · have hname := hreads.sound.kindName_mem e he
    constructor <;> intro hbrace <;> rw [hbrace] at hname <;> exact absurd hname (by decide)
  · have hsize := hreads.size_eq
    rw [hfollows.phase_eq, Token.countP_significant rfl] at hsize
    exact hsize
  · have hinitial : SymbolReader.initial.attempts = 0 := by decide
    have hattempts := hreads.attempts_eq
    rw [hinitial, Nat.zero_add] at hattempts
    simp only [Nat.zero_add] at hdeclared
    rw [hsteps, List.countP_map]
    exact hattempts.trans hdeclared

/-- A value that is declared like a parameter: three names, one of them for the second time. -/
theorem agrees_with_derivation_shadowed :
    ∃ tokens g d, Token.ofSource "fun f(x: Int) \x7b val x: Int \x7d" = .ok tokens ∧
      bundledGrammar {} = .ok g ∧ g.parse ⟨true, {}⟩ tokens = .ok d ∧
      (∀ e ∈ (ofTokens tokens).diagnostics,
        e.kindName ≠ "UnbalancedBrace" ∧ e.kindName ≠ "UnclosedScope") ∧
      (ofTokens tokens).scopes.size = 1 + tokens.countP (·.kind == .openCurly) ∧
      (ofTokens tokens).scopes.declarationCount +
          (ofTokens tokens).diagnostics.countP (·.kindName == "Duplicate") =
        d.steps.countP fun step => step.lhs ∈ declaringNames := by
  have hrun : (Grammar.ofProductions bundledSyntax).map (fun grammar =>
      (grammar.deriveLeftmost? [grammar.start]
          [0, 2, 5, 7, 12, 13, 17, 20, 16, 19, 30, 31, 33, 25, 26, 20, 29, 32, 1],
        (Token.ofSource "fun f(x: Int) \x7b val x: Int \x7d").map fun tokens =>
          CompiledGrammar.inputOf ⟨grammar, grammar.first, grammar.first, default⟩ {}
            (Token.significant tokens))) =
      .ok (some [16, 12, 17, 12, 25, 27, 19, 13, 34, 12, 25, 27, 15],
        .ok (.ok [16, 12, 17, 12, 25, 27, 19, 13, 34, 12, 25, 27, 15, Code.endOfInput])) := by
    decide +kernel
  obtain ⟨g, hg⟩ := exists_bundledGrammar
  rw [ofProductions_of_bundledGrammar hg] at hrun
  obtain ⟨hderive, hscan⟩ := Prod.mk.inj (Except.ok.inj hrun)
  obtain ⟨tokens, htokens, hinput⟩ := map_eq_ok.mp hscan
  obtain ⟨word, hword, he⟩ := CompiledGrammar.inputOf_eq_ok.mp hinput
  obtain rfl : [16, 12, 17, 12, 25, 27, 19, 13, 34, 12, 25, 27, 15] = word :=
    List.append_cancel_right he
  -- What a word spells depends on the symbols of the grammar only.
  have hspells : g.Spells {} (Token.significant tokens) _ := hword
  obtain ⟨d, hparse, -⟩ := CompiledGrammar.exists_parse_of_deriveLeftmost?
    (CompiledGrammar.compiledBy_of_ofText hg) hspells (by decide) hderive
  exact ⟨tokens, g, d, htokens, hg, hparse, agrees_with_derivation htokens hg hparse⟩

end SymbolTable

end PredictiveFrontend

import PredictiveFrontend.Proofs.Derivation.EndOfInput
import PredictiveFrontend.Proofs.Derivation.Fault
import PredictiveFrontend.Proofs.Derivation.Termination
import PredictiveFrontend.Proofs.Token.Scan
import PredictiveFrontend.Proofs.Token.Terminal

/-!
# The spelling of names

A parse knows its tokens by the terminals that they stand for. In the bundled grammar a name stands
for the terminal of all names, however it is spelled, unless its spelling is the generic terminal of
a class of literals: the grammar cannot tell such a name from a literal. But for these spellings the
names of a source can be exchanged, and the parse ends alike at the same token.
-/

namespace PredictiveFrontend

/-- The names of the terminals that stand for literals. -/
def GenericTerminals.literalNames (generic : GenericTerminals) : List String :=
  [generic.intLiteral, generic.doubleLiteral, generic.charLiteral]

/-- Tokens of one kind that are spelled alike, or names that are not spelled like the terminals of
literals. The places do not matter. -/
def Token.Respelled (t u : Token) : Prop :=
  t.kind = u.kind ∧ (t.lexeme = u.lexeme ∨ t.kind = .identifier ∧
    t.lexeme ∉ ({} : GenericTerminals).literalNames ∧
    u.lexeme ∉ ({} : GenericTerminals).literalNames)

instance (t u : Token) : Decidable (t.Respelled u) :=
  inferInstanceAs (Decidable (_ ∧ (_ ∨ _ ∧ _ ∧ _)))

/-- Results of parses of two token lists: the same derivation, faults at tokens of the same index
that expect the same, or tokens of the same index that stand for no terminal. -/
inductive EndsAlike (tokens tokens' : List Token) :
    Except ParseError Derivation → Except ParseError Derivation → Prop where
  /-- Both parses succeed. -/
  | derived (d : Derivation) : EndsAlike tokens tokens' (.ok d) (.ok d)
  /-- Both parses meet a fault. -/
  | unexpected (index : Nat) (hindex : index ≤ tokens.length) (expected : List String) :
    EndsAlike tokens tokens' (.error (.unexpected (.after tokens index expected)))
      (.error (.unexpected (.after tokens' index expected)))
  /-- Both inputs cannot be read. -/
  | unmapped (index : Nat) (t u : Token) (ht : tokens[index]? = some t)
    (hu : tokens'[index]? = some u) :
    EndsAlike tokens tokens' (.error (.unmapped t.lexeme t.kind t.line t.column))
      (.error (.unmapped u.lexeme u.kind u.line u.column))

namespace CompiledGrammar

variable {g : CompiledGrammar} {options : CompileOptions} {generic : GenericTerminals}
  {parsing : ParseOptions} {tokens tokens' : List Token} {word : List Code}

/-! ### Tokens that stand for the same terminals -/

/-- The tokens stand for the same terminal, or both for none. -/
def Interchangeable (g : CompiledGrammar) (generic : GenericTerminals) (t u : Token) : Prop :=
  ∀ c, g.terminalOf generic t = .ok c ↔ g.terminalOf generic u = .ok c

/-- Tokens whose terminals are the same one by one are read as one word, or the input cannot be read
at tokens of the same index. -/
theorem spells_or_unmapped_of_forall₂
    (h : List.Forall₂ (g.Interchangeable generic) tokens tokens') :
    (∃ word, g.Spells generic tokens word ∧ g.Spells generic tokens' word) ∨
      ∃ (index : Nat) (t u : Token), tokens[index]? = some t ∧ tokens'[index]? = some u ∧
        g.inputOf generic tokens = .error (.unmapped t.lexeme t.kind t.line t.column) ∧
        g.inputOf generic tokens' = .error (.unmapped u.lexeme u.kind u.line u.column) := by
  induction h with
  | nil => exact .inl ⟨[], .nil, .nil⟩
  | @cons t u rest rest' htu _ ih =>
    rcases ih with ⟨word, hw, hw'⟩ | ⟨index, t', u', ht', hu', hrest, hrest'⟩
    · cases ht : g.terminalOf generic t with
      | ok c => exact .inl ⟨c :: word, .cons ht hw, .cons ((htu c).mp ht) hw'⟩
      | error e =>
        cases hu : g.terminalOf generic u with
        | ok c =>
          rw [(htu c).mpr hu] at ht
          cases ht
        | error e' =>
          refine .inr ⟨0, t, u, rfl, rfl, ?_, ?_⟩
          · rw [← (terminalOf_eq_error.mp ht).2.2]
            exact inputOf_eq_error.mpr ⟨[], t, rest, word, rfl, hw, ht⟩
          · rw [← (terminalOf_eq_error.mp hu).2.2]
            exact inputOf_eq_error.mpr ⟨[], u, rest', word, rfl, hw', hu⟩
    · refine .inr ⟨index + 1, t', u', ht', hu', ?_, ?_⟩
      · rw [inputOf, hrest]
        rfl
      · rw [inputOf, hrest']
        rfl

/-- Interchangeable tokens lead to parses that end alike. -/
theorem endsAlike_of_forall₂ (hg : g.CompiledBy ⟨.reject, .fixedPoint⟩)
    (hgeneric : SymbolName.endOfInput ∉ parsing.generic.names)
    (h : List.Forall₂ (g.Interchangeable parsing.generic) (Token.significant tokens)
      (Token.significant tokens')) :
    EndsAlike (Token.significant tokens) (Token.significant tokens') (g.parse parsing tokens)
      (g.parse parsing tokens') := by
  rcases spells_or_unmapped_of_forall₂ h with ⟨word, hw, hw'⟩ | ⟨index, t, u, ht, hu, he, he'⟩
  · have hend := hw.endOfInput_not_mem hg.wellFormed hgeneric
    rw [parse_eq_result hw, parse_eq_result hw']
    cases hrun : Machine.run g parsing.strict (Machine.moveLimit g (word ++ [Code.endOfInput]))
        (.initial g (word ++ [Code.endOfInput])) with
    | accepted s => exact .derived _
    | rejected s expected =>
      obtain ⟨hreach, hreject⟩ := Machine.reaches_of_run_eq_rejected hrun
      have hinvariant := (Machine.invariant_initial hg.wellFormed word).reaches hg hend
        hw.isTerminal hreach
      obtain ⟨read, unread, symbols, hu⟩ := hinvariant.of_reject hreject
      refine .unexpected s.consumed ?_ expected
      rw [hw.length_eq, hu.word_eq, hu.consumed, List.length_append]
      exact Nat.le_add_right _ _
    | unfinished s =>
      -- A machine with complete FOLLOW sets and no conflicts comes to an end.
      obtain ⟨n, hn⟩ : Machine.Halts g parsing.strict (.initial g (word ++ [Code.endOfInput])) :=
        Machine.halts hg rfl rfl _ _ _ _
      have hfinished := Machine.isFinished_run_moveLimit hg hn
      rw [hrun] at hfinished
      cases hfinished
  · rw [parse_eq_error_of_inputOf he, parse_eq_error_of_inputOf he']
    exact .unmapped index t u ht hu

/-! ### Names of the bundled grammar -/

/-- The terminal of all names. -/
theorem genericTerminal?_identifier (hg : bundledGrammar options = .ok g) :
    g.genericTerminal? {} .identifier = some (g.alphabet.code "id") := by
  rw [genericTerminal?, (eq_of_bundledGrammar hg).1]
  decide +kernel

/-- In the bundled grammar a name that is not spelled like the terminal of literals stands for the
terminal of all names. -/
theorem terminalOf_identifier (hg : bundledGrammar options = .ok g) {t : Token} {text : List Char}
    (hrecognize : recognize text = some (t.kind, t.lexeme.toList)) (hkind : t.kind = .identifier)
    (hlexeme : t.lexeme ∉ ({} : GenericTerminals).literalNames) :
    g.terminalOf {} t = .ok (g.alphabet.code "id") := by
  have hgeneric := genericTerminal?_identifier hg
  rw [terminalOf_eq_ok_iff, hkind]
  cases hspelled : g.spelledTerminal? t.lexeme with
  | none => exact .inr ⟨rfl, hgeneric⟩
  | some c =>
    have wf := (compiledBy_of_ofText hg).wellFormed
    obtain ⟨⟨-, -, -, hidentifier⟩, hname⟩ := isProperTerminal_of_spelledTerminal? hg hspelled
    rw [hkind] at hrecognize
    have hread := read?_of_recognize_identifier hrecognize
    rcases hidentifier (Pattern.isIdentifier_of_read? hread).1 with
      hnames | ⟨⟨kind, _⟩, hentry, rfl⟩
    · obtain hid | hliteral := List.mem_cons.mp hnames
      · have hlt := (Alphabet.name_of_code? (Option.filter_eq_some_iff.mp hspelled).1).1
        refine .inl (congrArg some ?_)
        rw [← Alphabet.code_name wf.nodup hlt]
        exact congrArg g.alphabet.code (hname.trans hid)
      · exact absurd hliteral hlexeme
    · exact absurd rfl (ne_keyword_of_recognize hrecognize hentry)

theorem interchangeable_of_respelled (hg : bundledGrammar options = .ok g) {t u : Token}
    {text text' : List Char} (ht : recognize text = some (t.kind, t.lexeme.toList))
    (hu : recognize text' = some (u.kind, u.lexeme.toList)) (h : t.Respelled u) :
    g.Interchangeable {} t u := by
  obtain ⟨hkind, hlexeme | ⟨hname, hfirst, hsecond⟩⟩ := h
  · intro c
    rw [terminalOf_eq_ok_iff, terminalOf_eq_ok_iff, hkind, hlexeme]
  · intro c
    rw [terminalOf_identifier hg ht hname hfirst,
      terminalOf_identifier hg hu (hkind.symm.trans hname) hsecond]

/-- With the bundled grammar and its generic terminals, parses of two sources end alike if their
tokens are the same one by one but for their places and the spelling of their names, as long as no
name is spelled like the terminal of literals: both succeed by the same derivation, or both fail
with the same kind of error at the token of the same index. -/
theorem parse_respelled (hg : bundledGrammar {} = .ok g) (strict : Bool) {source source' : String}
    (htokens : Token.ofSource source = .ok tokens)
    (htokens' : Token.ofSource source' = .ok tokens')
    (h : List.Forall₂ Token.Respelled tokens tokens') :
    EndsAlike (Token.significant tokens) (Token.significant tokens')
      (g.parse ⟨strict, {}⟩ tokens) (g.parse ⟨strict, {}⟩ tokens') := by
  have hsignificant : List.Forall₂ Token.Respelled (Token.significant tokens)
      (Token.significant tokens') := by
    refine List.rel_filter (fun t u htu => ?_) h
    simp only [Token.isSignificant, htu.1]
  have hrecognize : ∀ {source tokens}, Token.ofSource source = .ok tokens →
      ∀ t ∈ Token.significant tokens, ∃ text, recognize text = some (t.kind, t.lexeme.toList) :=
    fun htokens t ht => Token.exists_recognize_of_mem htokens (List.mem_filter.mp ht).1
      (List.mem_filter.mp ht).2
  have hfirst := (List.forall₂_and_left _ _).mpr ⟨hrecognize htokens, hsignificant⟩
  have hboth := (List.forall₂_and_left _ _).mpr ⟨hrecognize htokens', hfirst.flip⟩
  have hgeneric : SymbolName.endOfInput ∉ ({} : GenericTerminals).names := by decide
  refine endsAlike_of_forall₂ (compiledBy_of_ofText hg) hgeneric (hboth.flip.imp ?_)
  rintro t u ⟨⟨text', hu⟩, ⟨text, ht⟩, htu⟩
  exact interchangeable_of_respelled hg ht hu htu

/-- A value may have another name. -/
theorem parse_respelled_value :
    ∃ g tokens tokens', bundledGrammar {} = .ok g ∧ Token.ofSource "val x : Int" = .ok tokens ∧
      Token.ofSource "val other : Int" = .ok tokens' ∧
      List.Forall₂ Token.Respelled tokens tokens' ∧
      EndsAlike (Token.significant tokens) (Token.significant tokens')
        (g.parse ⟨false, {}⟩ tokens) (g.parse ⟨false, {}⟩ tokens') := by
  have hscan : (Token.ofSource "val x : Int").bind (fun tokens =>
      (Token.ofSource "val other : Int").map fun tokens' =>
        decide (List.Forall₂ Token.Respelled tokens tokens')) = .ok true := by
    decide +kernel
  obtain ⟨tokens, htokens, hscan⟩ := bind_eq_ok.mp hscan
  obtain ⟨tokens', htokens', hrespelled⟩ := map_eq_ok.mp hscan
  obtain ⟨g, hg⟩ := exists_bundledGrammar
  have h := of_decide_eq_true hrespelled
  exact ⟨g, tokens, tokens', hg, htokens, htokens', h,
    parse_respelled hg false htokens htokens' h⟩

/-- Two values of the same type, the second one called like the terminal of literals. Their words
differ in the second symbol, and the first word is derived. -/
theorem exists_value_words :
    ∃ g tokens tokens', bundledGrammar {} = .ok g ∧
      Token.ofSource "val x : Int" = .ok tokens ∧
      Token.ofSource "val intConst : Int" = .ok tokens' ∧
      List.Forall₂ (fun t u : Token =>
        t.kind = u.kind ∧ (t.kind ≠ .identifier → t.lexeme = u.lexeme)) tokens tokens' ∧
      g.Spells {} (Token.significant tokens) [34, 12, 25, 27] ∧
      g.Spells {} (Token.significant tokens') [34, 67, 25, 27] ∧
      g.deriveLeftmost? [g.start] [0, 2, 5, 8, 25, 26, 20, 29, 1] = some [34, 12, 25, 27] := by
  have halike : (Token.ofSource "val x : Int").bind (fun tokens =>
      (Token.ofSource "val intConst : Int").map fun tokens' =>
        decide (List.Forall₂ (fun t u : Token =>
          t.kind = u.kind ∧ (t.kind ≠ .identifier → t.lexeme = u.lexeme)) tokens tokens')) =
      .ok true := by
    decide +kernel
  have hrun : (Grammar.ofProductions bundledSyntax).map (fun grammar =>
      (grammar.deriveLeftmost? [grammar.start] [0, 2, 5, 8, 25, 26, 20, 29, 1],
        ["val x : Int", "val intConst : Int"].map fun source =>
          (Token.ofSource source).map fun tokens =>
            CompiledGrammar.inputOf ⟨grammar, grammar.first, grammar.first, default⟩ {}
              (Token.significant tokens))) =
      .ok (some [34, 12, 25, 27], [.ok (.ok [34, 12, 25, 27, Code.endOfInput]),
        .ok (.ok [34, 67, 25, 27, Code.endOfInput])]) := by
    decide +kernel
  obtain ⟨g, hg⟩ := exists_bundledGrammar
  rw [ofProductions_of_bundledGrammar hg] at hrun
  obtain ⟨hderive, hinputs⟩ := Prod.mk.inj (Except.ok.inj hrun)
  obtain ⟨tokens, htokens, hscan⟩ := bind_eq_ok.mp halike
  obtain ⟨tokens', htokens', hscan⟩ := map_eq_ok.mp hscan
  rw [List.map_cons, List.map_singleton, htokens, htokens'] at hinputs
  obtain ⟨hinput, hinputs⟩ := List.cons.inj hinputs
  obtain ⟨hinput', -⟩ := List.cons.inj hinputs
  obtain ⟨word, hword, he⟩ := inputOf_eq_ok.mp (Except.ok.inj hinput)
  obtain ⟨word', hword', he'⟩ := inputOf_eq_ok.mp (Except.ok.inj hinput')
  obtain rfl : [34, 12, 25, 27] = word := List.append_cancel_right he
  obtain rfl : [34, 67, 25, 27] = word' := List.append_cancel_right he'
  -- What a word spells depends on the symbols of the grammar only, not on its sets and its table.
  exact ⟨g, tokens, tokens', hg, htokens, htokens', of_decide_eq_true hscan, hword, hword', hderive⟩

/-- A value must not be called like the terminal of literals. The tokens differ in the spelling of
a name and in places only, but the rules that accept the first ones do not accept the others. -/
theorem parse_differs_intConst :
    ∃ g tokens tokens' d, bundledGrammar {} = .ok g ∧
      Token.ofSource "val x : Int" = .ok tokens ∧
      Token.ofSource "val intConst : Int" = .ok tokens' ∧
      List.Forall₂ (fun t u : Token =>
        t.kind = u.kind ∧ (t.kind ≠ .identifier → t.lexeme = u.lexeme)) tokens tokens' ∧
      g.parse {} tokens = .ok d ∧
      ∀ d', g.parse {} tokens' = .ok d' → d'.ruleNumbers ≠ d.ruleNumbers := by
  obtain ⟨g, tokens, tokens', hg, htokens, htokens', halike, hspells, hspells', hderive⟩ :=
    exists_value_words
  have hcompiled := compiledBy_of_ofText hg
  have hgeneric : SymbolName.endOfInput ∉ ({} : GenericTerminals).names := by decide
  obtain ⟨strict, hstrict, -⟩ :=
    exists_parse_of_deriveLeftmost? hcompiled hspells (by decide) hderive
  obtain ⟨d, -, hd, -⟩ := exists_parse_lenient_of_strict hcompiled hgeneric hstrict
  refine ⟨g, tokens, tokens', d, hg, htokens, htokens', halike, hd, fun d' hd' hnumbers => ?_⟩
  have hlength : (Token.significant tokens').length = (Token.significant tokens).length := by
    rw [hspells.length_eq, hspells'.length_eq]
    rfl
  -- The same rules would derive the same word.
  obtain ⟨word, hfirst, hsecond⟩ :=
    word_eq_of_ruleNumbers hcompiled hgeneric hd' hd hnumbers hlength
  obtain rfl := hfirst.unique hspells'
  exact absurd (hsecond.unique hspells) (by decide)

end CompiledGrammar

end PredictiveFrontend

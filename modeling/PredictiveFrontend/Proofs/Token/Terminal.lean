import PredictiveFrontend.Proofs.Derivation.Input
import PredictiveFrontend.Proofs.Grammar.Bundled
import PredictiveFrontend.Proofs.Token.Recognition

/-!
# Tokens behind the terminals of the source language

A terminal of the bundled grammar is a lexeme of the pattern table or the generic name of a class of
tokens, so it tells the kind of the tokens that stand for it. The only exceptions are the generic
names of literals, which an identifier can spell.
-/

namespace PredictiveFrontend

namespace TokenKind

/-- The kind of the tokens that a terminal is meant for: that of its generic name or of its
spelling. -/
def ofTerminal? (name : String) : Option TokenKind :=
  ([identifier, intLiteral, doubleLiteral, charLiteral].find?
      fun kind => ({} : GenericTerminals).nameFor? kind == some name).or
    ((Pattern.table.find? fun entry => entry.2.spelling? == some name).map Prod.fst)

/-- Whether a token of a kind may stand for a terminal that is meant for another one. -/
def StandsFor (kind other : TokenKind) : Prop :=
  kind = other ∨ kind = identifier ∧ other ∈ [intLiteral, doubleLiteral, charLiteral]

theorem ofTerminal?_of_spelling? {kind : TokenKind} {p : Pattern} {name : String}
    (hp : (kind, p) ∈ Pattern.table) (h : p.spelling? = some name) :
    ofTerminal? name = some kind := by
  have hall : ∀ entry ∈ Pattern.table,
      entry.2.spelling?.all (fun name => ofTerminal? name == some entry.1) = true := by
    decide +kernel
  simpa [h] using hall (kind, p) hp

theorem ofTerminal?_of_nameFor? {kind : TokenKind} {name : String}
    (h : ({} : GenericTerminals).nameFor? kind = some name) : ofTerminal? name = some kind := by
  cases kind <;> first | (cases h; decide +kernel) | cases h

/-- A generic name is meant for a kind that an identifier may stand for. -/
theorem exists_ofTerminal?_of_mem_names {name : String}
    (h : name ∈ ({} : GenericTerminals).names) :
    ∃ kind, ofTerminal? name = some kind ∧ identifier.StandsFor kind := by
  simp only [GenericTerminals.names, List.mem_cons, List.not_mem_nil, or_false] at h
  rcases h with rfl | rfl | rfl | rfl
  · exact ⟨identifier, ofTerminal?_of_nameFor? rfl, Or.inl rfl⟩
  · exact ⟨intLiteral, ofTerminal?_of_nameFor? rfl, Or.inr ⟨rfl, by decide⟩⟩
  · exact ⟨doubleLiteral, ofTerminal?_of_nameFor? rfl, Or.inr ⟨rfl, by decide⟩⟩
  · exact ⟨charLiteral, ofTerminal?_of_nameFor? rfl, Or.inr ⟨rfl, by decide⟩⟩

end TokenKind

/-- A name that only tokens of its own spelling or class stand for: it is no number and no quoted
letter, and it is a keyword or a generic name if it is an identifier. -/
def IsProperTerminal (name : String) : Prop :=
  name.toList.head? ≠ some '\'' ∧ '.' ∉ name.toList ∧ isShortNumber name.toList = false ∧
    (isIdentifier name.toList = true →
      name ∈ ({} : GenericTerminals).names ∨ ∃ entry ∈ Pattern.table, entry.2 = .keyword name)

instance (name : String) : Decidable (IsProperTerminal name) :=
  inferInstanceAs (Decidable (_ ∧ _ ∧ _ ∧ (_ → _ ∨ _)))

theorem isProperTerminal_of_mem_names {p : Production} (hp : p ∈ bundledSyntax) {name : String}
    (hname : name ∈ p.names) (hterminal : SymbolKind.ofName name = .terminal)
    (hepsilon : name ≠ SymbolName.epsilon) : IsProperTerminal name := by
  have hall : ∀ p ∈ bundledSyntax, ∀ name ∈ p.names, SymbolKind.ofName name = .terminal →
      name ≠ SymbolName.epsilon → IsProperTerminal name := by
    decide +kernel
  exact hall p hp name hname hterminal hepsilon

namespace CompiledGrammar

variable {g : CompiledGrammar} {options : CompileOptions}

/-- A lexeme that names a terminal of the bundled grammar is proper. -/
theorem isProperTerminal_of_spelledTerminal? (hg : bundledGrammar options = .ok g) {lexeme : String}
    {c : Code} (h : g.spelledTerminal? lexeme = some c) :
    IsProperTerminal lexeme ∧ g.name c = lexeme := by
  obtain ⟨hcode, hc⟩ := Option.filter_eq_some_iff.mp h
  simp only [Bool.and_eq_true, bne_iff_ne] at hc
  obtain ⟨⟨hepsilon, hend⟩, hterminal⟩ := hc
  obtain ⟨hlt, hname⟩ := Alphabet.name_of_code? hcode
  have halphabet := (eq_of_bundledGrammar hg).1
  have hbase : Alphabet.base.names <+: g.alphabet.names := by
    rw [halphabet]
    exact Grammar.base_prefix_alphabetOf bundledSyntax
  have hnodup : g.alphabet.names.Nodup := by
    rw [halphabet]
    exact Grammar.nodup_alphabetOf bundledSyntax
  have hmarkers := Alphabet.name_of_base_prefix hbase
  have hsize : 2 ≤ g.alphabet.size := hbase.length_le
  -- A marker has its own code only.
  have hcode_eq : ∀ marker < 2, g.alphabet.name marker = lexeme → c = marker := by
    intro marker hmarker he
    rw [← Alphabet.code_name hnodup hlt, hname, ← he]
    exact Alphabet.code_name hnodup (Nat.lt_of_lt_of_le hmarker hsize)
  have hne_epsilon : lexeme ≠ SymbolName.epsilon := fun he =>
    hepsilon (hcode_eq Code.epsilon (by decide) (hmarkers.1.trans he.symm))
  have hne_end : lexeme ≠ SymbolName.endOfInput := fun he =>
    hend (hcode_eq Code.endOfInput (by decide) (hmarkers.2.trans he.symm))
  have hmem := Alphabet.name_mem hlt
  rw [hname, halphabet, Grammar.mem_alphabetOf] at hmem
  rw [Alphabet.isTerminal, Alphabet.kind, hname, beq_iff_eq] at hterminal
  refine ⟨?_, hname⟩
  rcases hmem with hmarker | ⟨p, hp, hn⟩
  · have hne : lexeme ∉ Alphabet.base.names := by simp [Alphabet.base, hne_epsilon, hne_end]
    exact absurd hmarker hne
  · exact isProperTerminal_of_mem_names hp (List.mem_cons.mpr hn) hterminal hne_epsilon

/-- A recognised token stands for a terminal that is meant for its kind. -/
theorem exists_ofTerminal?_of_terminalOf (hg : bundledGrammar options = .ok g) {t : Token}
    {text : List Char} (hrecognize : recognize text = some (t.kind, t.lexeme.toList))
    (hsignificant : t.isSignificant = true) {c : Code} (h : g.terminalOf {} t = .ok c) :
    ∃ kind, TokenKind.ofTerminal? (g.name c) = some kind ∧ t.kind.StandsFor kind := by
  rcases terminalOf_eq_ok h with hspelled | hgeneric
  · obtain ⟨⟨hquote, hpoint, hnumber, hidentifier⟩, hname⟩ :=
      isProperTerminal_of_spelledTerminal? hg hspelled
    obtain ⟨p, hp, hread⟩ := exists_read?_of_recognize hrecognize
    rw [hname]
    cases p with
    | literal word =>
      obtain rfl := String.toList_injective (Pattern.eq_of_spelling? rfl hread)
      exact ⟨t.kind, TokenKind.ofTerminal?_of_spelling? hp rfl, Or.inl rfl⟩
    | keyword word =>
      obtain rfl := String.toList_injective (Pattern.eq_of_spelling? rfl hread)
      exact ⟨t.kind, TokenKind.ofTerminal?_of_spelling? hp rfl, Or.inl rfl⟩
    | commentCloser =>
      have hkind : ∀ entry ∈ Pattern.table, entry.2 = .commentCloser →
          entry.1.isSignificant = false := by
        decide
      rw [Token.isSignificant, hkind _ hp rfl] at hsignificant
      cases hsignificant
    | quotedLetter => exact absurd (Pattern.head?_of_quotedLetter_read? hread) hquote
    | fraction => exact absurd (Pattern.point_mem_of_fraction_read? hread) hpoint
    | number =>
      rw [Pattern.isShortNumber_of_read? hread] at hnumber
      cases hnumber
    | identifier =>
      have hkind : ∀ entry ∈ Pattern.table, entry.2 = .identifier → entry.1 = .identifier := by
        decide
      have ht := hkind _ hp rfl
      simp only at ht
      rcases hidentifier (Pattern.isIdentifier_of_read? hread).1 with
        hnames | ⟨⟨kind, _⟩, hentry, rfl⟩
      · rw [ht]
        exact TokenKind.exists_ofTerminal?_of_mem_names hnames
      · rw [ht] at hrecognize
        exact absurd rfl (ne_keyword_of_recognize hrecognize hentry)
  · obtain ⟨hcode, -⟩ := Option.filter_eq_some_iff.mp hgeneric
    obtain ⟨name, hname, hcode⟩ := Option.bind_eq_some_iff.mp hcode
    have hc := (Alphabet.name_of_code? hcode).2
    refine ⟨t.kind, ?_, Or.inl rfl⟩
    rw [CompiledGrammar.name, hc]
    exact TokenKind.ofTerminal?_of_nameFor? hname

end CompiledGrammar

end PredictiveFrontend

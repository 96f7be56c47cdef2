import PredictiveFrontend.Derivation.Input
import PredictiveFrontend.Proofs.Grammar.WellFormed
import Mathlib.Data.List.Forall2

/-!
# The input of a parse

The input is a word, the terminals of all tokens in order, with the end of input behind it. The word
itself does not hold the end of input unless a generic terminal is named like it.
-/

namespace PredictiveFrontend

/-- The names of all generic terminals. -/
def GenericTerminals.names (generic : GenericTerminals) : List String :=
  [generic.identifier, generic.intLiteral, generic.doubleLiteral, generic.charLiteral]

theorem GenericTerminals.mem_names_of_nameFor? {generic : GenericTerminals} {kind : TokenKind}
    {name : String} (h : generic.nameFor? kind = some name) : name ∈ generic.names := by
  unfold nameFor? at h
  split at h
  · cases h
    simp [names]
  · cases h
    simp [names]
  · cases h
    simp [names]
  · cases h
    simp [names]
  · cases h

namespace CompiledGrammar

variable {g : CompiledGrammar} {generic : GenericTerminals}

/-- The word that tokens stand for: one terminal for each of them, in order. -/
def Spells (g : CompiledGrammar) (generic : GenericTerminals) (tokens : List Token)
    (word : List Code) : Prop :=
  List.Forall₂ (fun t c => g.terminalOf generic t = .ok c) tokens word

/-- The input of a parse is the word of the tokens with the end of input behind it. -/
theorem inputOf_eq_ok {tokens : List Token} {input : List Code} :
    g.inputOf generic tokens = .ok input ↔
      ∃ word, g.Spells generic tokens word ∧ input = word ++ [Code.endOfInput] := by
  induction tokens generalizing input with
  | nil =>
    constructor
    · intro h
      cases h
      exact ⟨[], List.Forall₂.nil, rfl⟩
    · rintro ⟨word, hw, rfl⟩
      cases hw
      rfl
  | cons t rest ih =>
    simp only [inputOf, bind_eq_ok]
    constructor
    · rintro ⟨codes, hcodes, c, hc, he⟩
      cases he
      obtain ⟨word, hw, rfl⟩ := ih.mp hcodes
      exact ⟨c :: word, List.Forall₂.cons hc hw, rfl⟩
    · rintro ⟨word, hw, rfl⟩
      cases hw with
      | cons hc hrest => exact ⟨_, ih.mpr ⟨_, hrest, rfl⟩, _, hc, rfl⟩

/-- The terminal of a token is spelled by its lexeme, or nothing is and it is the generic one of its
kind. -/
theorem terminalOf_eq_ok_iff {t : Token} {c : Code} :
    g.terminalOf generic t = .ok c ↔ g.spelledTerminal? t.lexeme = some c ∨
      (g.spelledTerminal? t.lexeme = none ∧ g.genericTerminal? generic t.kind = some c) := by
  rw [← Option.or_eq_some_iff, terminalOf]
  cases (g.spelledTerminal? t.lexeme).or (g.genericTerminal? generic t.kind) with
  | none => simp
  | some c' => simp

/-- The terminal of a token is spelled by its lexeme, or it is the generic one of its kind. -/
theorem terminalOf_eq_ok {t : Token} {c : Code} (h : g.terminalOf generic t = .ok c) :
    g.spelledTerminal? t.lexeme = some c ∨ g.genericTerminal? generic t.kind = some c :=
  (terminalOf_eq_ok_iff.mp h).imp_right And.right

/-- A token stands for no terminal if its lexeme spells none and its kind has no generic one. -/
theorem terminalOf_eq_error {t : Token} {e : ParseError} :
    g.terminalOf generic t = .error e ↔
      g.spelledTerminal? t.lexeme = none ∧ g.genericTerminal? generic t.kind = none ∧
        e = .unmapped t.lexeme t.kind t.line t.column := by
  rw [← and_assoc, ← Option.or_eq_none_iff, terminalOf]
  cases (g.spelledTerminal? t.lexeme).or (g.genericTerminal? generic t.kind) with
  | none => simp [eq_comm]
  | some c => simp

/-- Reading the input fails at the last token that stands for no terminal. -/
theorem inputOf_eq_error {tokens : List Token} {e : ParseError} :
    g.inputOf generic tokens = .error e ↔ ∃ before t after word, tokens = before ++ t :: after ∧
      g.Spells generic after word ∧ g.terminalOf generic t = .error e := by
  induction tokens with
  | nil => simp [inputOf]
  | cons t rest ih =>
    simp only [inputOf, bind_eq_error, ih]
    constructor
    · rintro (⟨before, u, after, word, rfl, hw, hu⟩ | ⟨input, hinput, hu | ⟨c, -, hc⟩⟩)
      · exact ⟨t :: before, u, after, word, rfl, hw, hu⟩
      · obtain ⟨word, hw, -⟩ := inputOf_eq_ok.mp hinput
        exact ⟨[], t, rest, word, rfl, hw, hu⟩
      · cases hc
    · rintro ⟨before, u, after, word, he, hw, hu⟩
      cases before with
      | nil =>
        obtain ⟨rfl, rfl⟩ := List.cons.inj he
        exact Or.inr ⟨_, inputOf_eq_ok.mpr ⟨word, hw, rfl⟩, Or.inl hu⟩
      | cons t' before =>
        obtain ⟨rfl, rfl⟩ := List.cons.inj he
        exact Or.inl ⟨before, u, after, word, rfl, hw, hu⟩

/-- Reading the input fails only at a token that stands for no terminal. -/
theorem eq_unmapped_of_inputOf_eq_error {tokens : List Token} {e : ParseError}
    (h : g.inputOf generic tokens = .error e) :
    ∃ t ∈ tokens, e = .unmapped t.lexeme t.kind t.line t.column := by
  obtain ⟨before, t, after, word, rfl, -, ht⟩ := inputOf_eq_error.mp h
  exact ⟨t, by simp, (terminalOf_eq_error.mp ht).2.2⟩

theorem isTerminal_of_terminalOf {t : Token} {c : Code} (h : g.terminalOf generic t = .ok c) :
    g.alphabet.isTerminal c = true ∧ c < g.alphabet.size := by
  rcases terminalOf_eq_ok h with hs | hg
  · obtain ⟨hcode, hc⟩ := Option.filter_eq_some_iff.mp hs
    rw [Bool.and_eq_true] at hc
    exact ⟨hc.2, (Alphabet.name_of_code? hcode).1⟩
  · obtain ⟨hcode, hc⟩ := Option.filter_eq_some_iff.mp hg
    obtain ⟨name, _, hname⟩ := Option.bind_eq_some_iff.mp hcode
    exact ⟨hc, (Alphabet.name_of_code? hname).1⟩

/-- A lexeme spells no marker. -/
theorem ne_marker_of_spelledTerminal? {lexeme : String} {c : Code}
    (h : g.spelledTerminal? lexeme = some c) : c ≠ Code.epsilon ∧ c ≠ Code.endOfInput := by
  have hc := (Option.filter_eq_some_iff.mp h).2
  simp only [Bool.and_eq_true, bne_iff_ne] at hc
  exact hc.1

/-- No token stands for the end of input if no generic terminal is named like it. -/
theorem ne_endOfInput_of_terminalOf (wf : g.toGrammar.WellFormed)
    (hgeneric : SymbolName.endOfInput ∉ generic.names) {t : Token} {c : Code}
    (h : g.terminalOf generic t = .ok c) : c ≠ Code.endOfInput := by
  rcases terminalOf_eq_ok h with hs | hg
  · exact (ne_marker_of_spelledTerminal? hs).2
  · rintro rfl
    obtain ⟨hcode, _⟩ := Option.filter_eq_some_iff.mp hg
    obtain ⟨name, hname, hcode⟩ := Option.bind_eq_some_iff.mp hcode
    have he := (Alphabet.name_of_code? hcode).2
    rw [(Alphabet.name_of_base_prefix wf.base).2] at he
    rw [he] at hgeneric
    exact hgeneric (GenericTerminals.mem_names_of_nameFor? hname)

namespace Spells

variable {tokens : List Token} {word : List Code}

theorem length_eq (h : g.Spells generic tokens word) : tokens.length = word.length :=
  List.Forall₂.length_eq h

/-- Tokens stand for one word only. -/
theorem unique {word' : List Code} (h : g.Spells generic tokens word)
    (h' : g.Spells generic tokens word') : word = word' := by
  refine Relator.RightUnique.forall₂ (fun t c c' hc hc' => ?_) h h'
  exact Except.ok.inj (hc.symm.trans hc')

/-- Every symbol of the word stands for a token. -/
theorem exists_terminalOf (h : g.Spells generic tokens word) {c : Code} (hc : c ∈ word) :
    ∃ t ∈ tokens, g.terminalOf generic t = .ok c :=
  exists_of_forall₂_of_mem h hc

/-- Every token stands for a symbol of the word. -/
theorem exists_mem_of_mem (h : g.Spells generic tokens word) {t : Token} (ht : t ∈ tokens) :
    ∃ c ∈ word, g.terminalOf generic t = .ok c :=
  exists_of_forall₂_of_mem h.flip ht

theorem terminalOf_ne (h : g.Spells generic tokens word) {c : Code} (hc : c ∉ word) {t : Token}
    (ht : t ∈ tokens) : g.terminalOf generic t ≠ .ok c := by
  obtain ⟨c', hmem, hc'⟩ := h.exists_mem_of_mem ht
  rw [hc']
  rintro ⟨⟩
  exact hc hmem

theorem isTerminal (h : g.Spells generic tokens word) :
    ∀ c ∈ word, g.alphabet.isTerminal c = true := by
  intro c hc
  obtain ⟨t, _, ht⟩ := h.exists_terminalOf hc
  exact (isTerminal_of_terminalOf ht).1

theorem lt_size (h : g.Spells generic tokens word) : ∀ c ∈ word, c < g.alphabet.size := by
  intro c hc
  obtain ⟨t, _, ht⟩ := h.exists_terminalOf hc
  exact (isTerminal_of_terminalOf ht).2

theorem endOfInput_not_mem (h : g.Spells generic tokens word) (wf : g.toGrammar.WellFormed)
    (hgeneric : SymbolName.endOfInput ∉ generic.names) : Code.endOfInput ∉ word := by
  intro hc
  obtain ⟨t, _, ht⟩ := h.exists_terminalOf hc
  exact ne_endOfInput_of_terminalOf wf hgeneric ht rfl

end Spells

end CompiledGrammar

end PredictiveFrontend

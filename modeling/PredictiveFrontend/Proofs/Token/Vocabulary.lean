import PredictiveFrontend.Proofs.Derivation.Run
import PredictiveFrontend.Proofs.Token.Scan
import PredictiveFrontend.Proofs.Token.Terminal

/-!
# What the bundled grammar makes of the tokens of a source

Every kind of token that the grammar sees has its terminal in the bundled grammar, by its spelling or
by the generic name of its kind, with one exception: a point between names is read from a source, but
no production mentions it. A parse looks for the terminals of all tokens before it takes its first
step, from the last token on, so a source with points fails at the last of them, whatever else is
wrong with it.
-/

namespace PredictiveFrontend

/-- Among tokens of which one has a given kind, there is a last one of that kind. -/
theorem Token.exists_last_of_kind {kind : TokenKind} {tokens : List Token}
    (h : ∃ t ∈ tokens, t.kind = kind) :
    ∃ before t after, tokens = before ++ t :: after ∧ t.kind = kind ∧
      ∀ u ∈ after, u.kind ≠ kind := by
  have hsome : (tokens.reverse.find? fun t => t.kind == kind).isSome = true := by
    simpa using h
  obtain ⟨t, hfind⟩ := Option.isSome_iff_exists.mp hsome
  obtain ⟨hkind, after, before, hsplit, hafter⟩ := List.find?_eq_some_iff_append.mp hfind
  have hreverse : tokens = before.reverse ++ t :: after.reverse := by
    simpa using congrArg List.reverse hsplit
  exact ⟨before.reverse, t, after.reverse, hreverse, by simpa using hkind, by simpa using hafter⟩

namespace CompiledGrammar

variable {g : CompiledGrammar} {options : CompileOptions} {tokens : List Token}

/-- A parse finds a token without a terminal exactly where its input cannot be read. -/
theorem parse_eq_unmapped_iff {parsing : ParseOptions} {lexeme : String} {kind : TokenKind}
    {line column : Nat} :
    g.parse parsing tokens = .error (.unmapped lexeme kind line column) ↔
      g.inputOf parsing.generic (Token.significant tokens) =
        .error (.unmapped lexeme kind line column) := by
  constructor
  · intro h
    cases hinput : g.inputOf parsing.generic (Token.significant tokens) with
    | error e =>
      have he := (parse_eq_error_of_inputOf hinput).symm.trans h
      cases he
      rfl
    | ok input =>
      obtain ⟨word, hspells, -⟩ := inputOf_eq_ok.mp hinput
      rw [parse_eq_result hspells] at h
      cases hrun : Machine.run g parsing.strict (Machine.moveLimit g (word ++ [Code.endOfInput]))
          (.initial g (word ++ [Code.endOfInput])) with
      | accepted s | rejected s expected | unfinished s =>
        rw [hrun] at h
        cases h
  · exact parse_eq_error_of_inputOf

/-- A kind of token that the grammar sees has a terminal that its only lexeme spells, or the generic
one of its kind, unless it is the point. -/
theorem exists_terminal_of_mem_table (hg : bundledGrammar options = .ok g) {kind : TokenKind}
    {p : Pattern} (hp : (kind, p) ∈ Pattern.table) (hsignificant : kind.isSignificant = true)
    (hpoint : kind ≠ .point) :
    (∃ word, p.spelling? = some word ∧ (g.spelledTerminal? word).isSome) ∨
      (g.genericTerminal? {} kind).isSome := by
  have hall : ∀ entry ∈ Pattern.table, entry.1.isSignificant = true → entry.1 ≠ .point →
      (entry.2.spelling?.any fun word =>
        (((Grammar.alphabetOf bundledSyntax).code? word).filter fun c => c != Code.epsilon &&
          c != Code.endOfInput && (Grammar.alphabetOf bundledSyntax).isTerminal c).isSome) = true ∨
      (((({} : GenericTerminals).nameFor? entry.1).bind
        (Grammar.alphabetOf bundledSyntax).code?).filter
          (Grammar.alphabetOf bundledSyntax).isTerminal).isSome = true := by
    decide +kernel
  simp only [spelledTerminal?, genericTerminal?, (eq_of_bundledGrammar hg).1]
  exact (hall (kind, p) hp hsignificant hpoint).imp_left (Option.any_eq_true _ _).mp

/-- A recognised token that is no point stands for a terminal. -/
theorem exists_terminalOf_of_ne_point (hg : bundledGrammar options = .ok g) {t : Token}
    {text : List Char} (hrecognize : recognize text = some (t.kind, t.lexeme.toList))
    (hsignificant : t.isSignificant = true) (hpoint : t.kind ≠ .point) :
    ∃ c, g.terminalOf {} t = .ok c := by
  obtain ⟨p, hp, hread⟩ := exists_read?_of_recognize hrecognize
  cases hresult : g.terminalOf {} t with
  | ok c => exact ⟨c, rfl⟩
  | error e =>
    obtain ⟨hspelled, hgeneric, -⟩ := terminalOf_eq_error.mp hresult
    rcases exists_terminal_of_mem_table hg hp hsignificant hpoint with ⟨word, hword, hsome⟩ | hsome
    · obtain rfl := String.toList_injective (Pattern.eq_of_spelling? hword hread)
      rw [hspelled] at hsome
      cases hsome
    · rw [hgeneric] at hsome
      cases hsome

/-- A point stands for no terminal, since it is in no name of a terminal. -/
theorem terminalOf_point (hg : bundledGrammar options = .ok g) {t : Token} {text : List Char}
    (hrecognize : recognize text = some (t.kind, t.lexeme.toList)) (hpoint : t.kind = .point) :
    g.terminalOf {} t = .error (.unmapped t.lexeme t.kind t.line t.column) := by
  obtain ⟨p, hp, hread⟩ := exists_read?_of_recognize hrecognize
  have hpattern : ∀ entry ∈ Pattern.table, entry.1 = .point → entry.2 = .literal "." := by decide
  obtain rfl : p = .literal "." := hpattern _ hp hpoint
  have hlexeme : '.' ∈ t.lexeme.toList := by
    rw [Pattern.eq_of_spelling? rfl hread]
    decide
  refine terminalOf_eq_error.mpr ⟨?_, by rw [hpoint]; rfl, rfl⟩
  cases hspelled : g.spelledTerminal? t.lexeme with
  | none => rfl
  | some c => exact absurd hlexeme (isProperTerminal_of_spelledTerminal? hg hspelled).1.2.1

/-- Recognised tokens without a point among them spell a word. -/
theorem exists_spells_of_ne_point (hg : bundledGrammar options = .ok g)
    (hrecognize : ∀ t ∈ tokens, ∃ text, recognize text = some (t.kind, t.lexeme.toList))
    (hsignificant : ∀ t ∈ tokens, t.isSignificant = true) (hpoint : ∀ t ∈ tokens, t.kind ≠ .point) :
    ∃ word, g.Spells {} tokens word := by
  induction tokens with
  | nil => exact ⟨[], List.Forall₂.nil⟩
  | cons t rest ih =>
    obtain ⟨⟨text, ht⟩, hrest⟩ := List.forall_mem_cons.mp hrecognize
    obtain ⟨c, hc⟩ := exists_terminalOf_of_ne_point hg ht (hsignificant t List.mem_cons_self)
      (hpoint t List.mem_cons_self)
    obtain ⟨word, hword⟩ := ih hrest (List.forall_mem_cons.mp hsignificant).2
      (List.forall_mem_cons.mp hpoint).2
    exact ⟨c :: word, List.Forall₂.cons hc hword⟩

/-- Reading the input of recognised tokens fails at the last point among them. -/
theorem inputOf_eq_error_of_point (hg : bundledGrammar options = .ok g)
    (hrecognize : ∀ t ∈ tokens, ∃ text, recognize text = some (t.kind, t.lexeme.toList))
    (hsignificant : ∀ t ∈ tokens, t.isSignificant = true) {before after : List Token} {t : Token}
    (hsplit : tokens = before ++ t :: after) (hkind : t.kind = .point)
    (hlast : ∀ u ∈ after, u.kind ≠ .point) :
    g.inputOf {} tokens = .error (.unmapped t.lexeme t.kind t.line t.column) := by
  have hsub : ∀ u ∈ after, u ∈ tokens := fun u hu => by
    rw [hsplit]
    exact List.mem_append_right before (List.mem_cons_of_mem t hu)
  obtain ⟨word, hword⟩ := exists_spells_of_ne_point hg (fun u hu => hrecognize u (hsub u hu))
    (fun u hu => hsignificant u (hsub u hu)) hlast
  obtain ⟨text, ht⟩ := hrecognize t (by simp [hsplit])
  exact inputOf_eq_error.mpr ⟨before, t, after, word, hsplit, hword, terminalOf_point hg ht hkind⟩

/-- With the bundled grammar and its generic terminals, a parse of a source finds a token without a
terminal exactly if some token that the grammar sees is a point, and then it reports the last point,
with its place. -/
theorem unmapped_iff_point (hg : bundledGrammar options = .ok g) (strict : Bool) {source : String}
    (htokens : Token.ofSource source = .ok tokens) :
    ((∃ lexeme kind line column,
        g.parse ⟨strict, {}⟩ tokens = .error (.unmapped lexeme kind line column)) ↔
      ∃ t ∈ Token.significant tokens, t.kind = .point) ∧
    ∀ before t after, Token.significant tokens = before ++ t :: after → t.kind = .point →
      (∀ u ∈ after, u.kind ≠ .point) →
      g.parse ⟨strict, {}⟩ tokens = .error (.unmapped t.lexeme t.kind t.line t.column) := by
  have hsignificant : ∀ t ∈ Token.significant tokens, t.isSignificant = true := fun t ht =>
    (List.mem_filter.mp ht).2
  have hrecognize : ∀ t ∈ Token.significant tokens,
      ∃ text, recognize text = some (t.kind, t.lexeme.toList) := fun t ht =>
    Token.exists_recognize_of_mem htokens (List.mem_filter.mp ht).1 (hsignificant t ht)
  have hlast : ∀ before t after, Token.significant tokens = before ++ t :: after →
      t.kind = .point → (∀ u ∈ after, u.kind ≠ .point) →
      g.parse ⟨strict, {}⟩ tokens = .error (.unmapped t.lexeme t.kind t.line t.column) :=
    fun before t after hsplit hkind hafter => parse_eq_unmapped_iff.mpr
      (inputOf_eq_error_of_point hg hrecognize hsignificant hsplit hkind hafter)
  refine ⟨⟨?_, ?_⟩, hlast⟩
  · rintro ⟨lexeme, kind, line, column, hparse⟩
    by_contra hnone
    -- Without a point the tokens spell a word, so the input is read.
    obtain ⟨word, hword⟩ := exists_spells_of_ne_point hg hrecognize hsignificant
      fun t ht hkind => hnone ⟨t, ht, hkind⟩
    have hread := inputOf_eq_ok.mpr ⟨word, hword, rfl⟩
    rw [parse_eq_unmapped_iff.mp hparse] at hread
    cases hread
  · intro hpoint
    obtain ⟨before, t, after, hsplit, hkind, hafter⟩ := Token.exists_last_of_kind hpoint
    exact ⟨_, _, _, _, hlast before t after hsplit hkind hafter⟩

/-- The error is at the last of two points, though the source starts with a brace that closes
nothing. -/
theorem unmapped_iff_point_last :
    ∃ g tokens, bundledGrammar {} = .ok g ∧
      Token.ofSource "\x7d a.b\n  c . d )" = .ok tokens ∧
      (∃ t ∈ Token.significant tokens, t.kind = .point) ∧
      g.parse ⟨false, {}⟩ tokens = .error (.unmapped "." .point 2 5) := by
  have hscan : (Token.ofSource "\x7d a.b\n  c . d )").map
      (fun tokens => (Token.significant tokens).drop 5) =
      .ok [⟨5, 2, 5, ".", .point⟩, ⟨7, 2, 7, "d", .identifier⟩, ⟨9, 2, 9, ")", .closeParen⟩] := by
    decide +kernel
  obtain ⟨tokens, htokens, hdrop⟩ := map_eq_ok.mp hscan
  obtain ⟨g, hg⟩ := exists_bundledGrammar
  have hsplit := (List.take_append_drop 5 (Token.significant tokens)).symm
  rw [hdrop] at hsplit
  obtain ⟨hiff, hlast⟩ := unmapped_iff_point hg false htokens
  have hparse := hlast _ _ _ hsplit rfl (by decide)
  exact ⟨g, tokens, hg, htokens, hiff.mp ⟨_, _, _, _, hparse⟩, hparse⟩

end CompiledGrammar

end PredictiveFrontend

import PredictiveFrontend.Token.Pattern

/-!
# Recognised lexemes

Whatever pattern reads a lexeme, the lexeme is the beginning of the text, and a pattern of the table
never reads the empty one.
-/

namespace PredictiveFrontend

theorem wordRun_starts (text : List Char) : wordRun text <+: text :=
  List.takeWhile_prefix _

theorem ne_nil_of_isShortNumber {run : List Char} (h : isShortNumber run = true) : run ≠ [] := by
  rintro rfl
  cases h

theorem ne_nil_of_isIdentifier {run : List Char} (h : isIdentifier run = true) : run ≠ [] := by
  rintro rfl
  cases h

namespace Pattern

/-- Whether a pattern that names the characters to read names any. -/
def isProper : Pattern → Bool
  | .literal lexeme => lexeme != ""
  | .keyword word => word != ""
  | _ => true

theorem isProper_of_mem_table {kind : TokenKind} {p : Pattern} (h : (kind, p) ∈ table) :
    p.isProper = true := by
  have hall : ∀ entry ∈ table, entry.2.isProper = true := by decide
  exact hall (kind, p) h

/-- What is read is the beginning of the text, and a proper pattern reads something. -/
theorem prefix_of_read? {p : Pattern} (hp : p.isProper = true) {text lexeme : List Char}
    (h : p.read? text = some lexeme) : lexeme <+: text ∧ lexeme ≠ [] := by
  cases p with
  | literal word =>
    simp only [read?, Option.ite_none_right_eq_some, Option.some.injEq] at h
    obtain ⟨hword, rfl⟩ := h
    refine ⟨List.isPrefixOf_iff_prefix.mp hword, ?_⟩
    simpa [isProper] using hp
  | commentCloser =>
    simp only [read?] at h
    split at h
    · next hcloser =>
      cases h
      exact ⟨List.isPrefixOf_iff_prefix.mp hcloser, List.cons_ne_nil _ _⟩
    · simp only [Option.ite_none_right_eq_some, Option.some.injEq] at h
      obtain ⟨hcloser, rfl⟩ := h
      exact ⟨List.isPrefixOf_iff_prefix.mp hcloser, List.cons_ne_nil _ _⟩
  | keyword word =>
    simp only [read?, Option.ite_none_right_eq_some, Option.some.injEq] at h
    obtain ⟨hword, rfl⟩ := h
    refine ⟨hword ▸ wordRun_starts text, ?_⟩
    simpa [isProper] using hp
  | quotedLetter =>
    simp only [read?] at h
    split at h
    · next c rest =>
      simp only [Option.ite_none_right_eq_some, Option.some.injEq] at h
      obtain ⟨-, rfl⟩ := h
      exact ⟨⟨rest, rfl⟩, List.cons_ne_nil _ _⟩
    · cases h
  | fraction =>
    simp only [read?] at h
    split at h
    · next rest hrest =>
      simp only [Option.ite_none_right_eq_some, Option.some.injEq] at h
      obtain ⟨-, rfl⟩ := h
      obtain ⟨after, hafter⟩ := wordRun_starts rest
      have hwhole := List.prefix_iff_eq_append.mp (wordRun_starts text)
      rw [hrest, ← hafter] at hwhole
      refine ⟨⟨after, ?_⟩, by simp⟩
      rwa [List.append_assoc, List.cons_append]
    · cases h
  | number =>
    simp only [read?, Option.ite_none_right_eq_some, Option.some.injEq] at h
    obtain ⟨hrun, rfl⟩ := h
    exact ⟨wordRun_starts text, ne_nil_of_isShortNumber hrun⟩
  | identifier =>
    simp only [read?, Option.ite_none_right_eq_some, Option.some.injEq] at h
    obtain ⟨hrun, rfl⟩ := h
    exact ⟨wordRun_starts text, ne_nil_of_isIdentifier hrun⟩

/-- The lexeme that a pattern reads, if it reads a single one. -/
def spelling? : Pattern → Option String
  | .literal lexeme => some lexeme
  | .keyword word => some word
  | _ => none

theorem eq_of_spelling? {p : Pattern} {word : String} (hp : p.spelling? = some word)
    {text lexeme : List Char} (h : p.read? text = some lexeme) : lexeme = word.toList := by
  cases p <;> cases hp
  · simp only [read?, Option.ite_none_right_eq_some, Option.some.injEq] at h
    exact h.2.symm
  · simp only [read?, Option.ite_none_right_eq_some, Option.some.injEq] at h
    exact h.2.symm

theorem isIdentifier_of_read? {text lexeme : List Char} (h : identifier.read? text = some lexeme) :
    isIdentifier lexeme = true ∧ wordRun text = lexeme := by
  simp only [read?, Option.ite_none_right_eq_some, Option.some.injEq] at h
  obtain ⟨hrun, rfl⟩ := h
  exact ⟨hrun, rfl⟩

theorem isShortNumber_of_read? {text lexeme : List Char} (h : number.read? text = some lexeme) :
    isShortNumber lexeme = true := by
  simp only [read?, Option.ite_none_right_eq_some, Option.some.injEq] at h
  obtain ⟨hrun, rfl⟩ := h
  exact hrun

theorem point_mem_of_fraction_read? {text lexeme : List Char}
    (h : fraction.read? text = some lexeme) : '.' ∈ lexeme := by
  simp only [read?] at h
  split at h
  · simp only [Option.ite_none_right_eq_some, Option.some.injEq] at h
    obtain ⟨-, rfl⟩ := h
    simp
  · cases h

theorem head?_of_quotedLetter_read? {text lexeme : List Char}
    (h : quotedLetter.read? text = some lexeme) : lexeme.head? = some '\'' := by
  simp only [read?] at h
  split at h
  · simp only [Option.ite_none_right_eq_some, Option.some.injEq] at h
    obtain ⟨-, rfl⟩ := h
    rfl
  · cases h

end Pattern

/-- A recognised lexeme is read by a pattern of the table. -/
theorem exists_read?_of_recognize {text lexeme : List Char} {kind : TokenKind}
    (h : recognize text = some (kind, lexeme)) :
    ∃ p, (kind, p) ∈ Pattern.table ∧ p.read? text = some lexeme := by
  obtain ⟨⟨kind', p⟩, hmem, hread⟩ := List.exists_of_findSome?_eq_some h
  obtain ⟨lexeme', hread, he⟩ := Option.map_eq_some_iff.mp hread
  cases he
  exact ⟨p, hmem, hread⟩

/-- A recognised lexeme is the beginning of the text, and it is not empty. -/
theorem prefix_of_recognize {text lexeme : List Char} {kind : TokenKind}
    (h : recognize text = some (kind, lexeme)) : lexeme <+: text ∧ lexeme ≠ [] := by
  obtain ⟨p, hmem, hread⟩ := exists_read?_of_recognize h
  exact Pattern.prefix_of_read? (Pattern.isProper_of_mem_table hmem) hread

/-- Only one pattern of the table recognises identifiers. -/
theorem read?_of_recognize_identifier {text lexeme : List Char}
    (h : recognize text = some (.identifier, lexeme)) :
    Pattern.identifier.read? text = some lexeme := by
  obtain ⟨p, hmem, hread⟩ := exists_read?_of_recognize h
  have hp : ∀ entry ∈ Pattern.table, entry.1 = .identifier → entry.2 = .identifier := by decide
  obtain rfl : p = .identifier := hp _ hmem rfl
  exact hread

/-- The identifiers come last in the table, so a lexeme that is recognised as one is no keyword. -/
theorem ne_keyword_of_recognize {text lexeme : List Char}
    (h : recognize text = some (.identifier, lexeme)) {kind : TokenKind} {word : String}
    (hword : (kind, .keyword word) ∈ Pattern.table) : lexeme ≠ word.toList := by
  rintro rfl
  obtain ⟨-, hrun⟩ := Pattern.isIdentifier_of_read? (read?_of_recognize_identifier h)
  have htable : Pattern.table = Pattern.table.dropLast ++ [(.identifier, .identifier)] := by decide
  have hearlier : (kind, Pattern.keyword word) ∈ Pattern.table.dropLast := by
    rw [htable] at hword
    simpa using hword
  have hkind : ∀ entry ∈ Pattern.table.dropLast, entry.1 ≠ .identifier := by decide
  rw [recognize, htable, List.findSome?_append, Option.or_eq_some_iff] at h
  rcases h with h | ⟨h, -⟩
  · obtain ⟨entry, hentry, hsome⟩ := List.exists_of_findSome?_eq_some h
    obtain ⟨lexeme', -, he⟩ := Option.map_eq_some_iff.mp hsome
    exact hkind entry hentry (congrArg Prod.fst he)
  · have hnone := List.findSome?_eq_none_iff.mp h _ hearlier
    simp [Pattern.read?, hrun] at hnone

/-- Nothing is recognised exactly if no pattern reads anything. -/
theorem recognize_eq_none {text : List Char} :
    recognize text = none ↔ ∀ entry ∈ Pattern.table, entry.2.read? text = none := by
  simp only [recognize, List.findSome?_eq_none_iff, Option.map_eq_none_iff]

end PredictiveFrontend

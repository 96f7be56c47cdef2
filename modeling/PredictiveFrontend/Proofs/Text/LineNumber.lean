import PredictiveFrontend.Proofs.Result
import PredictiveFrontend.Proofs.Text.Lines

/-!
# Numbers of lines

A line has the number of the line feeds in front of it, counted from one. It is ended by a line
feed, by a carriage return and a line feed, or by the end of the text; the text behind the last line
feed is a line only if there is any. The carriage return of an ending belongs to no line, though it
is left at the end of the line where a text is cut at its line feeds alone.
-/

namespace PredictiveFrontend.Text

/-- The line of a number, without its ending. -/
def LineAt (text : List Char) (number : Nat) (line : List Char) : Prop :=
  ∃ before ending after, text = before ++ (line ++ (ending ++ after)) ∧
    (∀ c ∈ before.getLast?, c = '\n') ∧ '\n' ∉ line ∧ number = before.count '\n' + 1 ∧
    (ending = ['\r', '\n'] ∨ (ending = ['\n'] ∧ line.getLast? ≠ some '\r') ∨
      (ending = [] ∧ after = [] ∧ line ≠ []))

/-- A line with or without the carriage return of its ending. -/
def IsLeftOf (line raw : List Char) : Prop :=
  raw = line ∨ raw = line ++ ['\r']

/-- What is left of a line in front of its line feed. -/
def dropFinalReturn (raw : List Char) : List Char :=
  if raw.getLast? = some '\r' then raw.dropLast else raw

/-- The lines of a text in order, without their endings. -/
def bareLines (text : List Char) : List (List Char) :=
  (pieces text).dropLast.map dropFinalReturn ++ (pieces text).getLast?.toList.filter (· ≠ [])

theorem isLeftOf_dropFinalReturn (raw : List Char) : IsLeftOf (dropFinalReturn raw) raw := by
  unfold dropFinalReturn
  split
  · next h => exact .inr (List.dropLast_append_getLast? '\r' h).symm
  · exact .inl rfl

theorem length_pieces (text : List Char) : (pieces text).length = text.count '\n' + 1 := by
  induction text with
  | nil => rfl
  | cons c rest ih =>
    obtain ⟨first, others, hrest⟩ := List.exists_cons_of_ne_nil (pieces_ne_nil rest)
    rw [hrest, List.length_cons] at ih
    rw [pieces, hrest]
    by_cases hc : c = '\n'
    · subst hc
      simp [ih]
    · simp [hc, ih]

/-! ### The first line and the others -/

/-- The text up to the first line feed is the first line. -/
theorem lines_append {first : List Char} (h : '\n' ∉ first) (rest : List Char) :
    lines (first ++ '\n' :: rest) = first :: lines rest := by
  rw [lines_append_lineFeed, lines_append_singleton, pieces_eq_singleton h, List.singleton_append]

/-- A text without line feeds is a line. -/
theorem lines_eq_singleton {text : List Char} (hne : text ≠ []) (h : '\n' ∉ text) :
    lines text = [text] := by
  have hlast : text.getLast? ≠ some '\n' := fun hlast => h (List.mem_of_getLast? hlast)
  rw [lines, if_neg hne, dropFinalLineFeed, if_neg hlast, pieces_eq_singleton h]

/-- The lines up to a line feed are ended. -/
theorem bareLines_append_lineFeed (text rest : List Char) :
    bareLines (text ++ '\n' :: rest) = (pieces text).map dropFinalReturn ++ bareLines rest := by
  have hne := pieces_ne_nil rest
  rw [bareLines, pieces_append_lineFeed, List.dropLast_append_of_ne_nil hne, List.map_append,
    List.getLast?_append_of_ne_nil _ hne, List.append_assoc, bareLines]

/-- The text up to the first line feed is the first line, with or without a carriage return at its
end. -/
theorem bareLines_append {first : List Char} (h : '\n' ∉ first) (rest : List Char) :
    bareLines (first ++ '\n' :: rest) = dropFinalReturn first :: bareLines rest := by
  rw [bareLines_append_lineFeed, pieces_eq_singleton h, List.map_singleton, List.singleton_append]

theorem bareLines_eq_singleton {text : List Char} (hne : text ≠ []) (h : '\n' ∉ text) :
    bareLines text = [text] := by
  simp [bareLines, pieces_eq_singleton h, hne]

/-- Behind a line feed the lines go on. -/
theorem bareLines_append_of_getLast? {before : List Char} (h : ∀ c ∈ before.getLast?, c = '\n')
    (rest : List Char) :
    ∃ earlier, bareLines (before ++ rest) = earlier ++ bareLines rest ∧
      earlier.length = before.count '\n' := by
  rcases List.eq_nil_or_concat' before with rfl | ⟨text, c, rfl⟩
  · exact ⟨[], rfl, rfl⟩
  · obtain rfl := h c (by simp)
    refine ⟨(pieces text).map dropFinalReturn, ?_, ?_⟩
    · rw [List.append_assoc, List.singleton_append, bareLines_append_lineFeed]
    · rw [List.length_map, length_pieces, List.count_append, List.count_singleton_self]

/-- What holds of the text behind the last line feed, and of a text when it does of the text behind
its first line, holds of every text. -/
theorem induction_on_lines {P : List Char → Prop} (hend : ∀ text, '\n' ∉ text → P text)
    (hline : ∀ first rest, '\n' ∉ first → P rest → P (first ++ '\n' :: rest)) (text : List Char) :
    P text := by
  by_cases hfeed : '\n' ∈ text
  · obtain ⟨first, rest, rfl, hfirst⟩ := List.eq_append_cons_of_mem hfeed
    exact hline first rest hfirst (induction_on_lines hend hline rest)
  · exact hend text hfeed
termination_by text.length
decreasing_by
  subst_vars
  rw [List.length_append, List.length_cons]
  omega

/-- Where a text is cut at its line feeds alone, a carriage return may be left of an ending. -/
theorem forall₂_bareLines (text : List Char) :
    List.Forall₂ IsLeftOf (bareLines text) (lines text) := by
  induction text using induction_on_lines with
  | hend text h =>
    by_cases hne : text = []
    · subst hne
      exact .nil
    · rw [bareLines_eq_singleton hne h, lines_eq_singleton hne h]
      exact .cons (.inl rfl) .nil
  | hline first rest h ih =>
    rw [bareLines_append h, lines_append h]
    exact .cons (isLeftOf_dropFinalReturn first) ih

/-! ### Lines by number -/

/-- A line is found at its number. -/
theorem LineAt.getElem?_bareLines {text line : List Char} {number : Nat}
    (h : LineAt text number line) : ∃ i, number = i + 1 ∧ (bareLines text)[i]? = some line := by
  obtain ⟨before, ending, after, rfl, hbefore, hline, rfl, hending⟩ := h
  obtain ⟨earlier, hlines, hlength⟩ :=
    bareLines_append_of_getLast? hbefore (line ++ (ending ++ after))
  have hfirst : ∃ others, bareLines (line ++ (ending ++ after)) = line :: others := by
    rcases hending with rfl | ⟨rfl, hreturn⟩ | ⟨rfl, rfl, hne⟩
    · have hfeed : '\n' ∉ line ++ ['\r'] := by simpa using hline
      refine ⟨bareLines after, ?_⟩
      have hlines := bareLines_append hfeed after
      rwa [dropFinalReturn, if_pos List.getLast?_concat, List.dropLast_concat, List.append_assoc]
        at hlines
    · refine ⟨bareLines after, ?_⟩
      rw [List.singleton_append, bareLines_append hline, dropFinalReturn, if_neg hreturn]
    · refine ⟨[], ?_⟩
      rw [List.append_nil, List.append_nil, bareLines_eq_singleton hne hline]
  obtain ⟨others, hfirst⟩ := hfirst
  refine ⟨before.count '\n', rfl, ?_⟩
  rw [hlines, ← hlength, List.getElem?_append_right (Nat.le_refl _), Nat.sub_self, hfirst]
  rfl

/-- What is ended by a line feed is a line, but for a carriage return at its end. -/
private theorem lineAt_dropFinalReturn {before raw : List Char}
    (hbefore : ∀ c ∈ before.getLast?, c = '\n') (hraw : '\n' ∉ raw) (after : List Char) :
    LineAt (before ++ (raw ++ '\n' :: after)) (before.count '\n' + 1) (dropFinalReturn raw) := by
  unfold dropFinalReturn
  split
  · next hreturn =>
    obtain ⟨line, rfl⟩ : ∃ line, raw = line ++ ['\r'] :=
      ⟨raw.dropLast, (List.dropLast_append_getLast? '\r' hreturn).symm⟩
    rw [List.dropLast_concat]
    refine ⟨before, ['\r', '\n'], after, ?_, hbefore, ?_, rfl, .inl rfl⟩
    · rw [List.append_assoc]
      rfl
    · exact fun h => hraw (List.mem_append_left _ h)
  · next hreturn =>
    exact ⟨before, ['\n'], after, rfl, hbefore, hraw, rfl, .inr (.inl ⟨rfl, hreturn⟩)⟩

/-- Behind whole lines the lines of a text have the numbers that follow. -/
private theorem lineAt_append {text line : List Char} {i : Nat}
    (h : (bareLines text)[i]? = some line) {before : List Char}
    (hbefore : ∀ c ∈ before.getLast?, c = '\n') :
    LineAt (before ++ text) (before.count '\n' + i + 1) line := by
  induction text using induction_on_lines generalizing before i with
  | hend text hfeed =>
    by_cases hne : text = []
    · rw [hne] at h
      cases h
    · rw [bareLines_eq_singleton hne hfeed] at h
      cases i with
      | zero =>
        obtain rfl := Option.some.inj h
        exact ⟨before, [], [], by simp, hbefore, hfeed, rfl, .inr (.inr ⟨rfl, rfl, hne⟩)⟩
      | succ i => cases h
  | hline first rest hfeed ih =>
    rw [bareLines_append hfeed] at h
    cases i with
    | zero =>
      obtain rfl := Option.some.inj h
      exact lineAt_dropFinalReturn hbefore hfeed rest
    | succ i =>
      have hlast : ∀ c ∈ (before ++ (first ++ ['\n'])).getLast?, c = '\n' := by
        rw [← List.append_assoc, List.getLast?_concat]
        rintro c ⟨⟩
        rfl
      have hline := ih h hlast
      have hcount : (before ++ (first ++ ['\n'])).count '\n' = before.count '\n' + 1 := by
        simp [List.count_append, List.count_eq_zero.mpr hfeed]
      rw [hcount, List.append_assoc, List.append_assoc, List.singleton_append] at hline
      rwa [show before.count '\n' + (i + 1) + 1 = before.count '\n' + 1 + i + 1 by omega]

/-- The lines of a text are numbered in order. -/
theorem lineAt_iff {text line : List Char} {number : Nat} :
    LineAt text number line ↔ ∃ i, number = i + 1 ∧ (bareLines text)[i]? = some line := by
  constructor
  · exact LineAt.getElem?_bareLines
  · rintro ⟨i, rfl, h⟩
    have hline := @lineAt_append text line i h [] (by simp)
    simpa using hline

/-- A line is found at its number where a text is cut at its line feeds alone. -/
theorem LineAt.exists_getElem? {text line : List Char} {number : Nat}
    (h : LineAt text number line) :
    ∃ i raw, number = i + 1 ∧ (lines text)[i]? = some raw ∧ IsLeftOf line raw := by
  obtain ⟨i, hnumber, hline⟩ := lineAt_iff.mp h
  obtain ⟨raw, hraw, hleft⟩ := exists_getElem?_of_forall₂ (forall₂_bareLines text) hline
  exact ⟨i, raw, hnumber, hraw, hleft⟩

/-- What is found there is a line with this number, but for a carriage return at its end. -/
theorem exists_lineAt_of_getElem? {text raw : List Char} {i : Nat}
    (h : (lines text)[i]? = some raw) :
    ∃ line, LineAt text (i + 1) line ∧ IsLeftOf line raw := by
  obtain ⟨line, hline, hleft⟩ := exists_getElem?_of_forall₂ (forall₂_bareLines text).flip h
  exact ⟨line, lineAt_iff.mpr ⟨i, rfl, hline⟩, hleft⟩

end PredictiveFrontend.Text

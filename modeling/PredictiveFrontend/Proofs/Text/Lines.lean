import PredictiveFrontend.Text.Lines
import Mathlib.Data.List.Basic

/-!
# Lines and line feeds

Cutting a text at its line feeds and joining pieces with line feeds undo each other. A line feed at
the very end is the only one that the lines of a text do not show.
-/

namespace PredictiveFrontend.Text

/-- A text is what is left without one final line feed, and this line feed. -/
theorem dropFinalLineFeed_append (text : List Char) :
    dropFinalLineFeed text ++ (if text.getLast? = some '\n' then ['\n'] else []) = text := by
  unfold dropFinalLineFeed
  split
  · next h => exact List.dropLast_append_getLast? '\n' h
  · exact List.append_nil text

theorem pieces_eq_singleton {text : List Char} (h : '\n' ∉ text) : pieces text = [text] := by
  induction text with
  | nil => rfl
  | cons c rest ih =>
    rw [List.mem_cons, not_or] at h
    rw [pieces, ih h.2]
    exact if_neg (Ne.symm h.1)

/-- A line feed ends a piece, wherever it stands. -/
theorem pieces_append_lineFeed (text rest : List Char) :
    pieces (text ++ '\n' :: rest) = pieces text ++ pieces rest := by
  induction text with
  | nil =>
    cases hrest : pieces rest with
    | nil => exact absurd hrest (pieces_ne_nil rest)
    | cons first others => simp [pieces, hrest]
  | cons c text ih =>
    rw [List.cons_append, pieces, ih, pieces]
    cases htext : pieces text with
    | nil => exact absurd htext (pieces_ne_nil text)
    | cons first others =>
      simp only [List.cons_append]
      split
      · rfl
      · rfl

/-- The first line feed ends the first piece. -/
theorem pieces_append {first : List Char} (h : '\n' ∉ first) (rest : List Char) :
    pieces (first ++ '\n' :: rest) = first :: pieces rest := by
  rw [pieces_append_lineFeed, pieces_eq_singleton h, List.singleton_append]

/-- Texts without line feeds are the pieces of the text that joins them. -/
theorem pieces_intercalate {ls : List (List Char)} (hne : ls ≠ []) (h : ∀ l ∈ ls, '\n' ∉ l) :
    pieces (['\n'].intercalate ls) = ls := by
  induction ls with
  | nil => exact absurd rfl hne
  | cons first others ih =>
    rw [List.forall_mem_cons] at h
    cases others with
    | nil =>
      rw [List.intercalate_singleton]
      exact pieces_eq_singleton h.1
    | cons second others =>
      rw [List.intercalate_cons_cons, List.append_assoc, List.singleton_append, pieces_append h.1,
        ih (List.cons_ne_nil _ _) h.2]

/-- Texts without line feeds are the pieces of the text in which each of them is ended, with nothing
behind the last one. -/
theorem pieces_flatMap_ended {ls : List (List Char)} (h : ∀ l ∈ ls, '\n' ∉ l) :
    pieces (ls.flatMap (· ++ ['\n'])) = ls ++ [[]] := by
  induction ls with
  | nil => rfl
  | cons first others ih =>
    rw [List.forall_mem_cons] at h
    rw [List.flatMap_cons, List.append_assoc, List.singleton_append, pieces_append h.1, ih h.2,
      List.cons_append]

/-- A joined text ends as the last of its pieces does, if this is not empty. -/
private theorem getLast?_intercalate {ls : List (List Char)} {last : List Char}
    (hlast : ls.getLast? = some last) (hne : last ≠ []) :
    (['\n'].intercalate ls).getLast? = last.getLast? := by
  induction ls with
  | nil => cases hlast
  | cons first others ih =>
    cases others with
    | nil =>
      obtain rfl : first = last := Option.some.inj hlast
      rw [List.intercalate_singleton]
    | cons second others =>
      rw [List.getLast?_cons_cons] at hlast
      rw [List.intercalate_cons_cons, List.getLast?_append, ih hlast,
        List.getLast?_eq_some_getLast hne, Option.some_or]

/-- Lines are read back from the text that joins them, unless the last one is empty. -/
theorem lines_intercalate {ls : List (List Char)} (hlast : ∀ l ∈ ls.getLast?, l ≠ [])
    (h : ∀ l ∈ ls, '\n' ∉ l) : lines (['\n'].intercalate ls) = ls := by
  cases hls : ls.getLast? with
  | none =>
    rw [List.getLast?_eq_none_iff.mp hls]
    rfl
  | some last =>
    have hne : last ≠ [] := hlast last hls
    have hend := getLast?_intercalate hls hne
    rw [lines, if_neg, dropFinalLineFeed, if_neg, pieces_intercalate _ h]
    · rintro rfl
      cases hls
    · rw [hend]
      intro hfeed
      exact h last (List.mem_of_getLast? hls) (List.mem_of_getLast? hfeed)
    · intro hnil
      rw [hnil, List.getLast?_eq_some_getLast hne] at hend
      cases hend

/-- A line feed at the end of a text ends its last line. -/
theorem lines_append_singleton (text : List Char) : lines (text ++ ['\n']) = pieces text := by
  have hne : text ++ ['\n'] ≠ [] := by simp
  rw [lines, if_neg hne, dropFinalLineFeed, if_pos List.getLast?_concat, List.dropLast_concat]

/-- Lines that are not empty are read back from the text that joins them, whether or not the last
one is ended. -/
theorem lines_intercalate_append {ls : List (List Char)} (hne : ls ≠ []) (hempty : ∀ l ∈ ls, l ≠ [])
    (h : ∀ l ∈ ls, '\n' ∉ l) {ending : List Char} (hending : ending = [] ∨ ending = ['\n']) :
    lines (['\n'].intercalate ls ++ ending) = ls := by
  rcases hending with rfl | rfl
  · rw [List.append_nil]
    exact lines_intercalate (fun l hl => hempty l (List.mem_of_getLast? hl)) h
  · rw [lines_append_singleton, pieces_intercalate hne h]

/-- The lines of a text that is cut behind a line feed are those in front of the cut and those
behind it. -/
theorem lines_append_lineFeed (text rest : List Char) :
    lines (text ++ '\n' :: rest) = lines (text ++ ['\n']) ++ lines rest := by
  cases hrest : rest with
  | nil => simp [lines]
  | cons c others =>
    rw [← hrest]
    have hne : rest ≠ [] := by simp [hrest]
    have hne' : text ++ '\n' :: rest ≠ [] := by simp
    have hlast : (text ++ '\n' :: rest).getLast? = rest.getLast? := by
      rw [List.append_cons, List.getLast?_append_of_ne_nil _ hne]
    have hdrop : dropFinalLineFeed (text ++ '\n' :: rest) =
        text ++ '\n' :: dropFinalLineFeed rest := by
      rw [dropFinalLineFeed, dropFinalLineFeed, hlast]
      split
      · rw [List.append_cons, List.dropLast_append_of_ne_nil hne, ← List.append_cons]
      · rfl
    rw [lines_append_singleton, lines, if_neg hne', hdrop, pieces_append_lineFeed, lines, if_neg hne]

end PredictiveFrontend.Text

import PredictiveFrontend.Proofs.Token.Recognition
import Mathlib.Data.List.Basic
import Mathlib.Data.List.TakeWhile

/-!
# Runs of word characters

Numbers and names are made of word characters, and whether a text begins with a whole run of them is
told by the character behind it.
-/

namespace PredictiveFrontend

open Text

/-! ### Word characters -/

/-- Where the ranges of a table strike out other ranges, each the first ones left that it covers,
and none is left at the end, the table covers them all. -/
private theorem exists_cover_of_foldl {table ranges : List (Nat × Nat)}
    (h : table.foldl (fun left s => left.dropWhile fun r => s.1.ble r.1 && r.2.ble s.2) ranges =
      []) {r : Nat × Nat} (hr : r ∈ ranges) : ∃ s ∈ table, s.1 ≤ r.1 ∧ r.2 ≤ s.2 := by
  induction table generalizing ranges with
  | nil => exact absurd hr (List.eq_nil_iff_forall_not_mem.mp h r)
  | cons s table ih =>
    rw [← List.takeWhile_append_dropWhile (p := fun r => s.1.ble r.1 && r.2.ble s.2) (l := ranges),
      List.mem_append] at hr
    rcases hr with hr | hr
    · have hcover := List.mem_takeWhile_imp hr
      rw [Bool.and_eq_true, Nat.ble_eq, Nat.ble_eq] at hcover
      exact ⟨s, List.mem_cons_self .., hcover⟩
    · obtain ⟨s', hs', hcover⟩ := ih h hr
      exact ⟨s', List.mem_cons_of_mem _ hs', hcover⟩

/-- A decimal digit is a word character. -/
theorem isWordCharacter_of_isDecimalDigit {c : Char} (h : isDecimalDigit c = true) :
    isWordCharacter c = true := by
  have hranges : wordRanges.foldl
      (fun left s => left.dropWhile fun r => s.1.ble r.1 && r.2.ble s.2) decimalRanges = [] := by
    decide +kernel
  rw [isDecimalDigit] at h
  split at h
  · next hascii => exact isWordCharacter_of_isAlphanum (by simp [Char.isAlphanum, h]) hascii
  · next hascii =>
    obtain ⟨r, hr, hlow, hhigh⟩ := inRanges_iff.mp h
    obtain ⟨s, hs, hlow', hhigh'⟩ := exists_cover_of_foldl hranges hr
    rw [isWordCharacter, if_neg hascii]
    exact inRanges_iff.mpr ⟨s, hs, Nat.le_trans hlow' hlow, Nat.le_trans hhigh hhigh'⟩

/-- A character of a name is a word character. -/
theorem isWordCharacter_of_isName {c : Char} (h : (c.isAlphanum || c == '_') = true) :
    isWordCharacter c = true := by
  have hascii : c.toNat < 0x80 := by
    rw [Bool.or_eq_true, beq_iff_eq] at h
    rcases h with h | rfl
    · have hkinds : ((c.isUpper || c.isLower) || c.isDigit) = true := h
      rw [Bool.or_eq_true, Bool.or_eq_true] at hkinds
      rcases hkinds with (hupper | hlower) | hdigit
      · have hlast : c.toNat ≤ 90 := (of_decide_eq_true hupper).2
        omega
      · have hlast : c.toNat ≤ 122 := of_decide_eq_true (Bool.and_eq_true_iff.mp hlower).2
        omega
      · have hlast : c.toNat ≤ 57 := of_decide_eq_true (Bool.and_eq_true_iff.mp hdigit).2
        omega
    · decide
  rw [isWordCharacter, if_pos hascii, h]

theorem forall_isWordCharacter_of_isShortNumber {run : List Char} (h : isShortNumber run = true) :
    ∀ c ∈ run, isWordCharacter c = true := by
  simp only [isShortNumber, Bool.and_eq_true, List.all_eq_true] at h
  exact fun c hc => isWordCharacter_of_isDecimalDigit (h.2 c hc)

theorem forall_isWordCharacter_of_isIdentifier {run : List Char} (h : isIdentifier run = true) :
    ∀ c ∈ run, isWordCharacter c = true := by
  cases run with
  | nil => cases h
  | cons c more =>
    simp only [isIdentifier, Bool.and_eq_true, List.all_eq_true] at h
    obtain ⟨⟨hc, -⟩, hall⟩ := h
    have hletter : (c.isAlphanum || c == '_') = true := by simp [Char.isAlphanum, hc]
    exact List.forall_mem_cons.mpr ⟨isWordCharacter_of_isName hletter,
      fun d hd => isWordCharacter_of_isName (hall d hd)⟩

/-! ### Whole runs -/

/-- A run of word characters at both of its ends. -/
def IsWordAtEnds (run : List Char) : Prop :=
  run.head?.any isWordCharacter = true ∧ run.getLast?.any isWordCharacter = true

theorem isWordAtEnds_of_forall {run : List Char} (hne : run ≠ [])
    (h : ∀ c ∈ run, isWordCharacter c = true) : IsWordAtEnds run := by
  constructor
  · rw [List.head?_eq_some_head hne]
    exact h _ (List.head_mem hne)
  · rw [List.getLast?_eq_some_getLast hne]
    exact h _ (List.getLast_mem hne)

theorem wordRun_eq_nil_iff {text : List Char} :
    wordRun text = [] ↔ text.head?.any isWordCharacter = false := by
  cases text with
  | nil => simp [wordRun]
  | cons c rest => simp [wordRun, List.takeWhile_cons]

theorem wordRun_append_of_forall {run : List Char} (h : ∀ c ∈ run, isWordCharacter c = true)
    (rest : List Char) : wordRun (run ++ rest) = run ++ wordRun rest :=
  List.takeWhile_append_of_pos h

/-- Word characters are a whole run if none is behind them. -/
theorem wordRun_append_eq_left_iff {run : List Char} (h : ∀ c ∈ run, isWordCharacter c = true)
    {rest : List Char} : wordRun (run ++ rest) = run ↔ wordRun rest = [] := by
  rw [wordRun_append_of_forall h, List.append_right_eq_self]

/-! ### Characters of lexemes -/

namespace Pattern

/-- The characters besides word characters that a pattern reads. -/
def marks : Pattern → List Char
  | .literal lexeme => lexeme.toList
  | .commentCloser => ['*', '/']
  | .quotedLetter => ['\'']
  | .fraction => ['.']
  | .keyword _ | .number | .identifier => []

theorem isWordCharacter_or_mem_marks {p : Pattern} {text lexeme : List Char}
    (h : p.read? text = some lexeme) {c : Char} (hc : c ∈ lexeme) :
    isWordCharacter c = true ∨ c ∈ p.marks := by
  have hrun : ∀ text, c ∈ wordRun text → isWordCharacter c = true :=
    fun _ hmem => List.mem_takeWhile_imp hmem
  cases p with
  | literal word =>
    rw [eq_of_spelling? rfl h] at hc
    exact Or.inr hc
  | commentCloser =>
    simp only [read?] at h
    refine Or.inr ?_
    split at h
    · cases h
      simpa [marks] using hc
    · rw [Option.ite_none_right_eq_some, Option.some.injEq] at h
      rw [← h.2] at hc
      exact hc
  | quotedLetter =>
    simp only [read?] at h
    split at h
    · next d rest =>
      rw [Option.ite_none_right_eq_some, Option.some.injEq] at h
      obtain ⟨hd, rfl⟩ := h
      by_cases hquote : c = '\''
      · exact Or.inr (hquote ▸ List.mem_singleton_self _)
      · obtain rfl : c = d := by simpa [hquote] using hc
        exact Or.inl (isWordCharacter_of_isName (by simp [Char.isAlphanum, hd]))
    · cases h
  | fraction =>
    simp only [read?] at h
    split at h
    · next rest _ =>
      rw [Option.ite_none_right_eq_some, Option.some.injEq] at h
      obtain ⟨-, rfl⟩ := h
      rw [List.mem_append, List.mem_cons] at hc
      rcases hc with hc | rfl | hc
      · exact Or.inl (hrun text hc)
      · exact Or.inr (List.mem_singleton_self _)
      · exact Or.inl (hrun rest hc)
    · cases h
  | keyword word =>
    simp only [read?, Option.ite_none_right_eq_some, Option.some.injEq] at h
    obtain ⟨hword, rfl⟩ := h
    exact Or.inl (hrun text (hword ▸ hc))
  | number | identifier =>
    simp only [read?, Option.ite_none_right_eq_some, Option.some.injEq] at h
    obtain ⟨-, rfl⟩ := h
    exact Or.inl (hrun text hc)

end Pattern

end PredictiveFrontend

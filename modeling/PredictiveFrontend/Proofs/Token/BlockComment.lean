import PredictiveFrontend.Proofs.Token.Reading
import PredictiveFrontend.Proofs.Token.WordRun
import Mathlib.Data.List.TakeWhile
import Mathlib.Data.Nat.Find
import Mathlib.Algebra.Group.Nat.Even

/-!
# Block comments end at their first closer

Inside a block comment a text is cut into lexemes as everywhere else, and openers are read there too.
So a star and the slash behind it are read together, as a closer, unless the star is already part of
an opener, which is the case behind an odd number of slashes. The comment ends with the first closer
on its own line or on a later one.
-/

namespace PredictiveFrontend

open Text

/-- In a block comment everything but a closer is part of the comment. -/
theorem CommentMode.classify_blockComment {kind : TokenKind} (h : kind ≠ .blockCommentEnd) :
    classify .blockComment kind = (.comment, .blockComment) := by
  cases kind <;> first | rfl | exact absurd rfl h

/-- Only an opener that is read in code is emitted as one, and it opens a block comment. -/
theorem CommentMode.classify_snd_of_blockCommentStart {mode : CommentMode} {kind : TokenKind}
    (h : (mode.classify kind).1 = .blockCommentStart) :
    (mode.classify kind).2 = .blockComment := by
  cases mode <;> cases kind <;> first | rfl | cases h

/-! ### Closers in a text -/

/-- How many slashes a text ends with. -/
def finalSlashes (text : List Char) : Nat :=
  (text.reverse.takeWhile (· == '/')).length

/-- A star and a slash stand at an index of a text, and the star does not belong to an opener: the
slashes right in front of it are even in number, so they pair up among themselves. -/
def ClosesAt (text : List Char) (index : Nat) : Prop :=
  ∃ before after, text = before ++ '*' :: '/' :: after ∧ before.length = index ∧
    Even (finalSlashes before)

theorem finalSlashes_append (u v : List Char) : finalSlashes (u ++ v) =
    if finalSlashes v = v.length then v.length + finalSlashes u else finalSlashes v := by
  rw [finalSlashes, List.reverse_append, List.takeWhile_append, List.length_reverse, ← finalSlashes]
  split
  · rw [List.length_append, List.length_reverse, ← finalSlashes]
  · rfl

/-- Slashes that pair up make no difference to what is behind them. -/
theorem even_finalSlashes_append {u : List Char} (h : Even (finalSlashes u)) (v : List Char) :
    Even (finalSlashes (u ++ v)) ↔ Even (finalSlashes v) := by
  rw [finalSlashes_append]
  split
  · next hv => rw [hv, Nat.even_add, iff_true_right h]
  · rfl

/-- Another character keeps slashes apart from those behind it. -/
theorem finalSlashes_append_cons {c : Char} (hc : c ≠ '/') (u v : List Char) :
    finalSlashes (u ++ c :: v) = finalSlashes (c :: v) := by
  rw [finalSlashes_append, if_neg]
  intro hall
  have hself : (c :: v).reverse.takeWhile (· == '/') = (c :: v).reverse :=
    (List.takeWhile_prefix _).eq_of_length (by rwa [List.length_reverse])
  have hslash := List.takeWhile_eq_self_iff.mp hself c (by simp)
  exact hc (by simpa using hslash)

theorem finalSlashes_eq_zero {text : List Char} (h : '/' ∉ text) : finalSlashes text = 0 := by
  rw [finalSlashes, List.length_eq_zero_iff, List.takeWhile_eq_nil_iff]
  intro hpos hlast
  have hmem : '/' ∈ text.reverse := (beq_iff_eq.mp hlast) ▸ List.getElem_mem hpos
  exact h (List.mem_reverse.mp hmem)

/-- A lexeme that ends no comment and does not reach into a closer only moves the closers of the
text behind it. -/
theorem closesAt_append {lexeme rest : List Char} {j : Nat}
    (hinside : ∀ before tail after, lexeme = before ++ '*' :: tail → tail ++ rest = '/' :: after →
      ¬Even (finalSlashes before))
    (hparity : ∀ before after, rest = before ++ '*' :: after →
      (Even (finalSlashes (lexeme ++ before)) ↔ Even (finalSlashes before))) :
    ClosesAt (lexeme ++ rest) j ↔ ∃ i, j = lexeme.length + i ∧ ClosesAt rest i := by
  constructor
  · rintro ⟨before, after, htext, rfl, heven⟩
    rcases List.append_eq_append_iff.mp htext with ⟨x, rfl, hrest⟩ | ⟨tail, rfl, htail⟩
    · refine ⟨x.length, List.length_append, x, after, hrest, rfl, ?_⟩
      exact (hparity x _ hrest).mp heven
    · cases tail with
      | nil => exact ⟨0, by simp, [], after, htail.symm, rfl, by simp [finalSlashes]⟩
      | cons d tail =>
        obtain ⟨rfl, hafter⟩ := List.cons.inj htail
        exact absurd heven (hinside before tail after rfl hafter.symm)
  · rintro ⟨i, rfl, before, after, rfl, rfl, heven⟩
    refine ⟨lexeme ++ before, after, by simp, by simp, ?_⟩
    exact (hparity before _ rfl).mpr heven

/-! ### Closers and lexemes -/

/-- No star and no slash is among the characters. -/
def IsPlain (text : List Char) : Prop :=
  '*' ∉ text ∧ '/' ∉ text

instance (text : List Char) : Decidable (IsPlain text) :=
  inferInstanceAs (Decidable (_ ∧ _))

/-- Only the closer and literals have patterns that read stars or slashes. -/
theorem Pattern.isPlain_of_read? {p : Pattern} {text lexeme : List Char}
    (h : p.read? text = some lexeme) (hcloser : p ≠ .commentCloser)
    (hliteral : ∀ word, p = .literal word → IsPlain word.toList) : IsPlain lexeme := by
  have hmarks : ∀ {c}, c ∈ lexeme → ¬isWordCharacter c = true → c ∈ p.marks :=
    fun hc hword => (isWordCharacter_or_mem_marks h hc).resolve_left hword
  have hplain : IsPlain p.marks := by
    cases p with
    | literal word => exact hliteral word rfl
    | commentCloser => exact absurd rfl hcloser
    | keyword | number | identifier => exact ⟨List.not_mem_nil, List.not_mem_nil⟩
    | quotedLetter | fraction => decide
  exact ⟨fun h => hplain.1 (hmarks h (by decide)), fun h => hplain.2 (hmarks h (by decide))⟩

/-- A closer has one star or two. -/
theorem lexeme_of_recognize_closer {text lexeme : List Char}
    (h : recognize text = some (.blockCommentEnd, lexeme)) :
    lexeme = ['*', '/'] ∨ lexeme = ['*', '*', '/'] := by
  obtain ⟨p, hmem, hread⟩ := exists_read?_of_recognize h
  have hp : ∀ entry ∈ Pattern.table, entry.1 = .blockCommentEnd → entry.2 = .commentCloser := by
    decide
  obtain rfl : p = .commentCloser := hp _ hmem rfl
  simp only [Pattern.read?] at hread
  split at hread
  · cases hread
    exact Or.inr rfl
  · simp only [Option.ite_none_right_eq_some, Option.some.injEq] at hread
    exact Or.inl hread.2.symm

/-- Another lexeme holds stars and slashes only if it is a delimiter or an operator. -/
theorem lexeme_of_recognize {text lexeme : List Char} {kind : TokenKind}
    (h : recognize text = some (kind, lexeme)) (hkind : kind ≠ .blockCommentEnd) :
    IsPlain lexeme ∨ lexeme ∈ [['/', '*'], ['/', '/'], ['*'], ['/']] := by
  obtain ⟨p, hmem, hread⟩ := exists_read?_of_recognize h
  have hliterals : ∀ entry ∈ Pattern.table, ∀ word ∈ entry.2.spelling?,
      IsPlain word.toList ∨ word.toList ∈ [['/', '*'], ['/', '/'], ['*'], ['/']] := by decide
  have hcloser : ∀ entry ∈ Pattern.table,
      entry.2 = .commentCloser → entry.1 = .blockCommentEnd := by decide
  by_cases hdelimiter : lexeme ∈ [['/', '*'], ['/', '/'], ['*'], ['/']]
  · exact Or.inr hdelimiter
  · refine Or.inl (Pattern.isPlain_of_read? hread (fun hp => hkind (hcloser _ hmem hp)) ?_)
    rintro word rfl
    have hword := Pattern.eq_of_spelling? rfl hread
    exact (hliterals _ hmem word rfl).resolve_right (hword ▸ hdelimiter)

/-- Behind a lexeme that is no closer the comment ends where the rest of the text says. -/
theorem closesAt_append_of_recognize {lexeme rest : List Char} {kind : TokenKind}
    (h : recognize (lexeme ++ rest) = some (kind, lexeme)) (hkind : kind ≠ .blockCommentEnd)
    {j : Nat} : ClosesAt (lexeme ++ rest) j ↔ ∃ i, j = lexeme.length + i ∧ ClosesAt rest i := by
  have hstar : ∀ {lexeme' : List Char}, '*' ∉ lexeme' → ∀ before tail after : List Char,
      lexeme' = before ++ '*' :: tail → tail ++ rest = '/' :: after → ¬Even (finalSlashes before) :=
    fun hm before tail after he => absurd (he ▸ by simp) hm
  have hpaired : ∀ {lexeme' : List Char}, Even (finalSlashes lexeme') →
      ∀ before after : List Char, rest = before ++ '*' :: after →
        (Even (finalSlashes (lexeme' ++ before)) ↔ Even (finalSlashes before)) :=
    fun he before after _ => even_finalSlashes_append he before
  have hcases := lexeme_of_recognize h hkind
  simp only [List.mem_cons, List.not_mem_nil, or_false] at hcases
  rcases hcases with hplain | rfl | rfl | rfl | rfl
  · refine closesAt_append (hstar hplain.1) (hpaired ?_)
    rw [finalSlashes_eq_zero hplain.2]
    exact Even.zero
  · -- The star of an opener stands behind one slash.
    refine closesAt_append (fun before tail after he _ => ?_) (hpaired (by decide))
    rcases before with _ | ⟨b, _ | ⟨d, before⟩⟩
    · simp at he
    · obtain ⟨rfl, -⟩ := List.cons.inj he
      decide
    · simp at he
  · exact closesAt_append (hstar (by decide)) (hpaired (by decide))
  · -- A star that is read alone has no slash behind it.
    refine closesAt_append (fun before tail after he hafter => ?_) (hpaired (by decide))
    rcases before with _ | ⟨b, before⟩
    · obtain rfl : [] = tail := (List.cons.inj he).2
      obtain rfl : rest = '/' :: after := hafter
      have hread : recognize ('*' :: '/' :: after) = some (.blockCommentEnd, ['*', '/']) := rfl
      cases hread.symm.trans h
    · simp at he
  · -- A slash that is read alone has neither a slash nor a star behind it.
    refine closesAt_append (hstar (by decide)) (fun before after hrest => ?_)
    subst hrest
    rcases before with _ | ⟨b, before⟩
    · have hread : recognize ('/' :: '*' :: after) = some (.blockCommentStart, ['/', '*']) := rfl
      cases hread.symm.trans h
    · by_cases hb : b = '/'
      · subst hb
        have hread : recognize ('/' :: '/' :: (before ++ '*' :: after)) =
          some (.lineComment, ['/', '/']) := rfl
        cases hread.symm.trans h
      · rw [finalSlashes_append_cons hb]

/-- A closer that is read is the first one of the text, whether it has one star or two. -/
theorem closesAt_of_recognize_closer {lexeme rest : List Char}
    (h : recognize (lexeme ++ rest) = some (.blockCommentEnd, lexeme)) :
    ∃ stars, lexeme = stars ++ ['*', '/'] ∧ ClosesAt (lexeme ++ rest) stars.length ∧
      ∀ i < stars.length, ¬ClosesAt (lexeme ++ rest) i := by
  rcases lexeme_of_recognize_closer h with rfl | rfl
  · exact ⟨[], rfl, ⟨[], rest, rfl, rfl, by decide⟩, by simp⟩
  · refine ⟨['*'], rfl, ⟨['*'], rest, rfl, rfl, by decide⟩, fun i hi => ?_⟩
    rintro ⟨before, after, htext, rfl, -⟩
    obtain rfl : before = [] := List.eq_nil_of_length_eq_zero (by simpa using hi)
    simp at htext

/-! ### The first closer of lines -/

/-- The first closer of some lines: it is in this line, at this index, with other lines in front of
it and behind it. -/
structure FirstCloser (ls skipped : List SourceLine) (line : SourceLine) (others : List SourceLine)
    (index : Nat) : Prop where
  lines_eq : ls = skipped ++ line :: others
  not_skipped : ∀ l ∈ skipped, ∀ i, ¬ClosesAt l.text i
  closes : ClosesAt line.text index
  not_before : ∀ i < index, ¬ClosesAt line.text i

theorem not_closesAt_nil (i : Nat) : ¬ClosesAt [] i := by
  rintro ⟨before, after, htext, -⟩
  simp at htext

/-- Lines that hold a closer hold a first one. -/
theorem exists_firstCloser {ls : List SourceLine} (h : ∃ l ∈ ls, ∃ i, ClosesAt l.text i) :
    ∃ skipped line others index, FirstCloser ls skipped line others index := by
  classical
  induction ls with
  | nil => simp at h
  | cons first rest ih =>
    by_cases hfirst : ∃ i, ClosesAt first.text i
    · exact ⟨[], first, rest, Nat.find hfirst, rfl, by simp, Nat.find_spec hfirst,
        fun i hi => Nat.find_min hfirst hi⟩
    · have hrest : ∃ l ∈ rest, ∃ i, ClosesAt l.text i := by
        obtain ⟨l, hl, hi⟩ := h
        rcases List.mem_cons.mp hl with rfl | hl
        · exact absurd hi hfirst
        · exact ⟨l, hl, hi⟩
      obtain ⟨skipped, line, others, index, hlines, hskipped, hcloses, hbefore⟩ := ih hrest
      refine ⟨first :: skipped, line, others, index, by rw [hlines]; rfl, ?_, hcloses, hbefore⟩
      exact List.forall_mem_cons.mpr ⟨fun i hi => hfirst ⟨i, hi⟩, hskipped⟩

namespace FirstCloser

variable {number index : Nat} {later skipped others : List SourceLine} {line : SourceLine}

/-- Behind a line of which nothing is left the first closer is one of the other lines. -/
theorem of_nil (h : FirstCloser (⟨number, []⟩ :: later) skipped line others index) :
    ∃ skipped', skipped = ⟨number, []⟩ :: skipped' ∧
      FirstCloser later skipped' line others index := by
  cases skipped with
  | nil =>
    obtain ⟨rfl, -⟩ := List.cons.inj h.lines_eq
    exact absurd h.closes (not_closesAt_nil index)
  | cons first skipped =>
    obtain ⟨rfl, hlater⟩ := List.cons.inj h.lines_eq
    exact ⟨skipped, rfl, hlater, (List.forall_mem_cons.mp h.not_skipped).2, h.closes, h.not_before⟩

/-- Behind a lexeme that is no closer the first closer is the same, and in the same line it is that
much nearer. -/
theorem of_append {lexeme rest : List Char}
    (hmoves : ∀ j, ClosesAt (lexeme ++ rest) j ↔ ∃ i, j = lexeme.length + i ∧ ClosesAt rest i)
    (h : FirstCloser (⟨number, lexeme ++ rest⟩ :: later) skipped line others index) :
    (skipped = [] ∧ line = ⟨number, lexeme ++ rest⟩ ∧ ∃ i, index = lexeme.length + i ∧
        FirstCloser (⟨number, rest⟩ :: later) [] ⟨number, rest⟩ others i) ∨
      ∃ skipped', skipped = ⟨number, lexeme ++ rest⟩ :: skipped' ∧
        FirstCloser (⟨number, rest⟩ :: later) (⟨number, rest⟩ :: skipped') line others index := by
  obtain ⟨hlines, hskipped, hcloses, hbefore⟩ := h
  cases skipped with
  | nil =>
    obtain ⟨rfl, rfl⟩ := List.cons.inj hlines
    obtain ⟨i, rfl, hi⟩ := (hmoves index).mp hcloses
    refine Or.inl ⟨rfl, rfl, i, rfl, rfl, by simp, hi, fun k hk hclose => ?_⟩
    exact hbefore (lexeme.length + k) (by omega) ((hmoves _).mpr ⟨k, rfl, hclose⟩)
  | cons first skipped =>
    obtain ⟨rfl, rfl⟩ := List.cons.inj hlines
    rw [List.forall_mem_cons] at hskipped
    refine Or.inr ⟨skipped, rfl, rfl, ?_, hcloses, hbefore⟩
    rw [List.forall_mem_cons]
    exact ⟨fun k hclose => hskipped.1 _ ((hmoves _).mpr ⟨k, rfl, hclose⟩), hskipped.2⟩

/-- A closer at the front of the text is the first one. -/
theorem of_closer {text : List Char} {i : Nat} (hi : ClosesAt text i)
    (hbefore : ∀ j < i, ¬ClosesAt text j)
    (h : FirstCloser (⟨number, text⟩ :: later) skipped line others index) :
    skipped = [] ∧ line = ⟨number, text⟩ ∧ index = i := by
  cases skipped with
  | nil =>
    obtain ⟨rfl, -⟩ := List.cons.inj h.lines_eq
    refine ⟨rfl, rfl, Nat.le_antisymm ?_ ?_⟩
    · exact Nat.le_of_not_lt fun hlt => h.not_before i hlt hi
    · exact Nat.le_of_not_lt fun hlt => hbefore index hlt h.closes
  | cons first skipped =>
    obtain ⟨rfl, -⟩ := List.cons.inj h.lines_eq
    exact absurd hi (h.not_skipped _ (List.mem_cons_self ..) i)

end FirstCloser

/-- A token stands in one of some lines, behind the head of the line and the lines prior to it,
which other tokens make up, and in front of the rest of the line and later lines. -/
structure Token.StandsIn (t : Token) (ls : List SourceLine) (before : List Token)
    (prior : List SourceLine) (head rest : List Char) (later : List SourceLine) : Prop where
  lines_eq : ls = prior ++ ⟨t.line, head ++ t.lexeme.toList ++ rest⟩ :: later
  characters_eq : characters before = prior.flatMap SourceLine.text ++ head
  column_eq : t.column = head.length + 1

/-- Tokens inside a comment, and the token that closes it at an index of a line, behind the lines
that are skipped. The comment is read from this column of its first line on. -/
structure ClosedBy (column : Nat) (skipped : List SourceLine) (line : SourceLine) (index : Nat)
    (inside : List Token) (closer : Token) : Prop where
  kind_inside : ∀ t ∈ inside, t.kind = .comment
  kind_closer : closer.kind = .blockCommentEnd
  suffix : ['*', '/'] <:+ closer.lexeme.toList
  line_eq : closer.line = line.number
  endIndex_eq : closer.endIndex + 1 = (if skipped = [] then column else 1) + (index + 2)
  /-- The lexemes make up the text up to the end of the closer. -/
  characters_eq : Token.characters inside ++ closer.lexeme.toList =
    skipped.flatMap SourceLine.text ++ line.text.take (index + 2)

namespace ClosedBy

variable {column number index : Nat} {lexeme rest : List Char} {skipped : List SourceLine}
  {line : SourceLine} {inside : List Token} {t closer : Token}

/-- One more token inside, in front of the closer on the same line. -/
theorem cons (ht : t.kind = .comment) (hlexeme : t.lexeme.toList = lexeme)
    (h : ClosedBy (column + lexeme.length) [] ⟨number, rest⟩ index inside closer) :
    ClosedBy column [] ⟨number, lexeme ++ rest⟩ (lexeme.length + index) (t :: inside) closer where
  kind_inside := List.forall_mem_cons.mpr ⟨ht, h.kind_inside⟩
  kind_closer := h.kind_closer
  suffix := h.suffix
  line_eq := h.line_eq
  endIndex_eq := by
    rw [h.endIndex_eq, if_pos rfl, if_pos rfl]
    omega
  characters_eq := by
    rw [Token.characters, List.flatMap_cons, hlexeme, List.append_assoc, ← Token.characters,
      h.characters_eq, Nat.add_assoc, List.take_length_add_append]
    rfl

/-- One more token inside, on the first line that is skipped. -/
theorem cons_skipped {column' : Nat} (ht : t.kind = .comment) (hlexeme : t.lexeme.toList = lexeme)
    (h : ClosedBy column' (⟨number, rest⟩ :: skipped) line index inside closer) :
    ClosedBy column (⟨number, lexeme ++ rest⟩ :: skipped) line index (t :: inside) closer where
  kind_inside := List.forall_mem_cons.mpr ⟨ht, h.kind_inside⟩
  kind_closer := h.kind_closer
  suffix := h.suffix
  line_eq := h.line_eq
  endIndex_eq := by
    rw [h.endIndex_eq, if_neg (List.cons_ne_nil _ _), if_neg (List.cons_ne_nil _ _)]
  characters_eq := by
    rw [Token.characters, List.flatMap_cons, hlexeme, List.append_assoc, ← Token.characters,
      h.characters_eq]
    simp

/-- One more line that is skipped, of which nothing was left. -/
theorem skip (h : ClosedBy 1 skipped line index inside closer) :
    ClosedBy column (⟨number, []⟩ :: skipped) line index inside closer where
  kind_inside := h.kind_inside
  kind_closer := h.kind_closer
  suffix := h.suffix
  line_eq := h.line_eq
  endIndex_eq := by
    rw [h.endIndex_eq, ite_self, if_neg (List.cons_ne_nil _ _)]
  characters_eq := h.characters_eq

end ClosedBy

namespace Scan

/-- Inside a block comment a lexeme that is no closer becomes part of it. -/
theorem Place.kind_token_of_comment {p : Place} (hmode : p.mode = .blockComment) {kind : TokenKind}
    (hkind : kind ≠ .blockCommentEnd) (lexeme rest : List Char) :
    (p.token kind lexeme).kind = .comment ∧ (p.behind kind lexeme rest).mode = .blockComment := by
  rw [Place.token, Place.behind, hmode, CommentMode.classify_blockComment hkind]
  exact ⟨rfl, rfl⟩

namespace Reads

variable {p q : Place} {tokens : List Token}

/-- A scan that is inside a block comment reads on to the first closer. -/
theorem exists_closer (h : Reads p tokens q) (hend : q.IsEnd) (hmode : p.mode = .blockComment)
    (hcolumn : 1 ≤ p.column) {skipped others : List SourceLine} {line : SourceLine} {index : Nat}
    (hfirst : FirstCloser p.unread skipped line others index) :
    ∃ inside closer beyond, tokens = inside ++ closer :: beyond ∧
      ClosedBy p.column skipped line index inside closer := by
  induction h generalizing skipped line index with
  | refl p =>
    obtain ⟨htext, hlater⟩ := hend
    rw [Place.unread, htext, hlater] at hfirst
    obtain ⟨skipped', -, hnone⟩ := hfirst.of_nil
    exact absurd hnone.lines_eq.symm (by simp)
  | @token p q kind lexeme rest tokens htext hrecognize h ih =>
    rw [Place.unread, htext] at hfirst
    rw [htext] at hrecognize
    by_cases hkind : kind = .blockCommentEnd
    · subst hkind
      obtain ⟨stars, hlexeme, hcloses, hbefore⟩ := closesAt_of_recognize_closer hrecognize
      obtain ⟨rfl, rfl, rfl⟩ := hfirst.of_closer hcloses hbefore
      have hlength : lexeme.length = stars.length + 2 := by simp [hlexeme]
      refine ⟨[], _, tokens, rfl, by simp, ?_, ?_, rfl, ?_, ?_⟩
      · rw [Place.token, hmode]
        rfl
      · exact ⟨stars, by simp [Place.token, hlexeme]⟩
      · simp only [Place.token, hlength, if_true]
        omega
      · simp [Place.token, Token.characters, ← hlength]
    · obtain ⟨htoken, hnext⟩ := Place.kind_token_of_comment hmode hkind lexeme rest
      have hcolumn' : 1 ≤ (p.behind kind lexeme rest).column := Nat.le_add_right_of_le hcolumn
      have hlexeme : (p.token kind lexeme).lexeme.toList = lexeme := String.toList_ofList
      rcases hfirst.of_append fun j => closesAt_append_of_recognize hrecognize hkind with
        ⟨rfl, rfl, i, rfl, hrest⟩ | ⟨skipped', rfl, hrest⟩
      · obtain ⟨inside, closer, beyond, rfl, hclosed⟩ := ih hend hnext hcolumn' hrest
        exact ⟨p.token kind lexeme :: inside, closer, beyond, rfl, hclosed.cons htoken hlexeme⟩
      · obtain ⟨inside, closer, beyond, rfl, hclosed⟩ := ih hend hnext hcolumn' hrest
        exact ⟨p.token kind lexeme :: inside, closer, beyond, rfl,
          hclosed.cons_skipped htoken hlexeme⟩
  | @line p q l later tokens htext hlater h ih =>
    rw [Place.unread, htext, hlater] at hfirst
    obtain ⟨skipped', rfl, hlines⟩ := hfirst.of_nil
    have hnext : (p.atLine l later).mode = .blockComment := by
      rw [Place.atLine, hmode]
      rfl
    obtain ⟨inside, closer, beyond, htokens, hclosed⟩ := ih hend hnext (Nat.le_refl 1) hlines
    exact ⟨inside, closer, beyond, htokens, hclosed.skip⟩

/-- A scan that is inside a block comment stays there if there is no closer. -/
theorem comment_of_not_closesAt (h : Reads p tokens q) (hmode : p.mode = .blockComment)
    (hnone : ∀ l ∈ p.unread, ∀ i, ¬ClosesAt l.text i) :
    (∀ t ∈ tokens, t.kind = .comment) ∧ q.mode = .blockComment := by
  induction h with
  | refl p => exact ⟨by simp, hmode⟩
  | @token p q kind lexeme rest tokens htext hrecognize h ih =>
    rw [Place.unread, List.forall_mem_cons, htext] at hnone
    rw [htext] at hrecognize
    have hkind : kind ≠ .blockCommentEnd := by
      rintro rfl
      obtain ⟨stars, -, hcloses, -⟩ := closesAt_of_recognize_closer hrecognize
      exact hnone.1 _ hcloses
    obtain ⟨htoken, hnext⟩ := Place.kind_token_of_comment hmode hkind lexeme rest
    obtain ⟨hkinds, hq⟩ := ih hnext (by
      refine List.forall_mem_cons.mpr ⟨fun i hi => ?_, hnone.2⟩
      exact hnone.1 _ ((closesAt_append_of_recognize hrecognize hkind).mpr ⟨i, rfl, hi⟩))
    exact ⟨List.forall_mem_cons.mpr ⟨htoken, hkinds⟩, hq⟩
  | @line p q l later tokens htext hlater h ih =>
    refine ih ?_ fun l' hl' => hnone l' ?_
    · rw [Place.atLine, hmode]
      rfl
    · rw [Place.unread, hlater]
      exact List.mem_cons_of_mem _ hl'

end Reads

/-- An opener that is emitted stands in one of the lines, and the scan reads on behind it inside a
block comment. -/
theorem exists_reads_of_opener {mode : CommentMode} {ls : List SourceLine}
    {before after : List Token} {opener : Token}
    (h : (lines mode ls).result = .ok (before ++ opener :: after))
    (hopener : opener.kind = .blockCommentStart) :
    ∃ prior head rest later p q, opener.StandsIn ls before prior head rest later ∧
      p.mode = .blockComment ∧ p.unread = ⟨opener.line, rest⟩ :: later ∧
      p.column = opener.endIndex + 1 ∧ Reads p after q ∧ q.IsEnd := by
  obtain ⟨q, hreads, hend, -⟩ := exists_reads_of_lines h
  obtain ⟨p, kind, lexeme, rest, hbefore, htext, hrecognize, rfl, hafter⟩ :=
    hreads.exists_of_append
  obtain ⟨-, hne⟩ := prefix_of_recognize hrecognize
  obtain ⟨prior, head, hls, hcharacters, hcolumn⟩ :=
    hbefore.exists_lines_eq (by simp [htext, hne])
  refine ⟨prior, head, rest, p.later, p.behind kind lexeme rest, q, ⟨?_, hcharacters, hcolumn⟩,
    CommentMode.classify_snd_of_blockCommentStart hopener, rfl, ?_, hafter, hend⟩
  · rw [hls, htext]
    simp [Place.token]
  · simp only [Place.behind, Place.token]
    omega

/-- A block comment ends at its first closer. An opener that a successful scan emits stands in one
of the lines. If there is a closer behind it, on the same line or on a later one, the first token
behind the opener that closes a comment ends with the first closer, and all tokens between the two
are part of the comment. -/
theorem block_comment_ends {mode : CommentMode} {ls : List SourceLine}
    {before after : List Token} {opener : Token}
    (h : (lines mode ls).result = .ok (before ++ opener :: after))
    (hopener : opener.kind = .blockCommentStart) :
    ∃ prior head rest later, opener.StandsIn ls before prior head rest later ∧
      ((∃ l ∈ (⟨opener.line, rest⟩ :: later : List SourceLine), ∃ i, ClosesAt l.text i) →
        ∃ skipped line others index,
          FirstCloser (⟨opener.line, rest⟩ :: later) skipped line others index ∧
          ∃ inside closer beyond, after = inside ++ closer :: beyond ∧
            ClosedBy (opener.endIndex + 1) skipped line index inside closer) := by
  obtain ⟨prior, head, rest, later, p, q, hstands, hmode, hunread, hcolumn, hreads, hend⟩ :=
    exists_reads_of_opener h hopener
  refine ⟨prior, head, rest, later, hstands, fun hcloses => ?_⟩
  obtain ⟨skipped, line, others, index, hfirst⟩ := exists_firstCloser hcloses
  rw [← hunread] at hfirst
  rw [← hcolumn, ← hunread]
  exact ⟨skipped, line, others, index, hfirst, hreads.exists_closer hend hmode (by omega) hfirst⟩

/-- The star behind two slashes begins a closer, which ends the comment. -/
theorem block_comment_ends_paired :
    ∃ opener after inside closer beyond,
      (lines .code [⟨1, "/* a //*/ val".toList⟩]).result = .ok (opener :: after) ∧
      opener.kind = .blockCommentStart ∧ after = inside ++ closer :: beyond ∧
      (∀ t ∈ inside, t.kind = .comment) ∧ closer.kind = .blockCommentEnd ∧
      ['*', '/'] <:+ closer.lexeme.toList := by
  have hrun : (lines .code [⟨1, "/* a //*/ val".toList⟩]).result = .ok
      ([] ++ ⟨1, 1, 2, "/*", .blockCommentStart⟩ :: [⟨3, 1, 3, " ", .comment⟩,
        ⟨4, 1, 4, "a", .comment⟩, ⟨5, 1, 5, " ", .comment⟩, ⟨6, 1, 7, "//", .comment⟩,
        ⟨8, 1, 9, "*/", .blockCommentEnd⟩, ⟨10, 1, 10, " ", .whiteSpace⟩,
        ⟨11, 1, 13, "val", .valKeyword⟩]) := by
    decide +kernel
  obtain ⟨prior, head, rest, later, hstands, hends⟩ := block_comment_ends hrun rfl
  have hnil : prior.flatMap SourceLine.text ++ head = [] := hstands.characters_eq.symm
  obtain ⟨-, rfl⟩ := List.append_eq_nil_iff.mp hnil
  obtain ⟨rfl, hline, -⟩ : prior = [] ∧
      (⟨1, ['/', '*'] ++ rest⟩ : SourceLine) = ⟨1, "/* a //*/ val".toList⟩ ∧ later = [] := by
    simpa [List.singleton_eq_append_iff] using hstands.lines_eq
  obtain rfl : rest = " a //*/ val".toList := by simpa using hline
  obtain ⟨skipped, line, others, index, -, inside, closer, beyond, hafter, hclosed⟩ :=
    hends ⟨_, List.mem_cons_self .., 5, " a //".toList, " val".toList, rfl, rfl, by decide⟩
  exact ⟨_, _, inside, closer, beyond, hrun, rfl, hafter, hclosed.kind_inside, hclosed.kind_closer,
    hclosed.suffix⟩

/-- The star behind the second slash belongs to another opener, so the comment is not closed. -/
theorem block_comment_goes_on_hidden :
    ∃ opener inside, (lines .code [⟨1, "/* /*/".toList⟩]).result = .ok (opener :: inside) ∧
      opener.kind = .blockCommentStart ∧ opener.endIndex = 2 ∧
      ['*', '/'] <:+: "/* /*/".toList.drop 2 ∧ ∀ t ∈ inside, t.kind ≠ .blockCommentEnd := by
  refine ⟨⟨1, 1, 2, "/*", .blockCommentStart⟩, [⟨3, 1, 3, " ", .comment⟩, ⟨4, 1, 5, "/*", .comment⟩,
    ⟨6, 1, 6, "/", .comment⟩], ?_, rfl, rfl, ?_, ?_⟩
  · decide +kernel
  · exact ⟨[' ', '/'], [], rfl⟩
  · decide

/-- A block comment that no closer ends goes on to the end. -/
theorem block_comment_unclosed {mode : CommentMode} {ls : List SourceLine}
    {before after : List Token} {opener : Token}
    (h : (lines mode ls).result = .ok (before ++ opener :: after))
    (hopener : opener.kind = .blockCommentStart) :
    ∃ prior head rest later, opener.StandsIn ls before prior head rest later ∧
      ((∀ l ∈ (⟨opener.line, rest⟩ :: later : List SourceLine), ∀ i, ¬ClosesAt l.text i) →
        ∀ t ∈ after, t.kind = .comment) := by
  obtain ⟨prior, head, rest, later, p, q, hstands, hmode, hunread, -, hreads, -⟩ :=
    exists_reads_of_opener h hopener
  refine ⟨prior, head, rest, later, hstands, fun hnone => ?_⟩
  rw [← hunread] at hnone
  exact (hreads.comment_of_not_closesAt hmode hnone).1

end Scan

end PredictiveFrontend

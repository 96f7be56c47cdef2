import PredictiveFrontend.Proofs.Token.BlockComment
import Mathlib.Data.List.Nodup

/-!
# Delimiters of comments

Whether a token stands inside a comment can be told from the tokens in front of it: from the
delimiters of block comments, and from the openers of line comments on its line. This is the mode in
which it was read.
-/

namespace PredictiveFrontend

namespace CommentMode

/-- A block comment is open behind its opener, and as long as no closer is emitted. -/
theorem classify_snd_eq_blockComment {mode : CommentMode} {kind : TokenKind} :
    (mode.classify kind).2 = .blockComment ↔ (mode.classify kind).1 = .blockCommentStart ∨
      mode = .blockComment ∧ (mode.classify kind).1 ≠ .blockCommentEnd := by
  cases mode <;> cases kind <;> decide

/-- A line comment goes on behind its opener. -/
theorem classify_snd_eq_lineComment {mode : CommentMode} {kind : TokenKind} :
    (mode.classify kind).2 = .lineComment ↔
      (mode.classify kind).1 = .lineComment ∨ mode = .lineComment := by
  cases mode <;> cases kind <;> decide

/-- In code every lexeme is emitted as what it is. -/
theorem classify_code_fst (kind : TokenKind) : (classify .code kind).1 = kind := by
  cases kind <;> rfl

/-- In a comment nothing is emitted for the grammar. -/
theorem isSignificant_classify {mode : CommentMode} (h : mode ≠ .code) (kind : TokenKind) :
    (mode.classify kind).1.isSignificant = false := by
  cases mode <;> cases kind <;> first | rfl | exact absurd rfl h

theorem atLineStart_eq_blockComment {mode : CommentMode} :
    mode.atLineStart = .blockComment ↔ mode = .blockComment := by
  cases mode <;> decide

theorem atLineStart_ne_lineComment (mode : CommentMode) : mode.atLineStart ≠ .lineComment := by
  cases mode <;> decide

end CommentMode

namespace Token

/-- Behind tokens a block comment is open: there is an opener, and no closer behind it. -/
def InBlockComment (before : List Token) : Prop :=
  ∃ earlier opener inside, before = earlier ++ opener :: inside ∧
    opener.kind = .blockCommentStart ∧ ∀ t ∈ inside, t.kind ≠ .blockCommentEnd

/-- Behind tokens a line comment goes on on a line: its opener is on this line. -/
def InLineComment (before : List Token) (line : Nat) : Prop :=
  ∃ opener ∈ before, opener.kind = .lineComment ∧ opener.line = line

theorem not_inBlockComment_nil : ¬InBlockComment [] := by
  rintro ⟨earlier, opener, inside, hnil, -⟩
  simp at hnil

theorem inBlockComment_cons {t : Token} {tokens : List Token} :
    InBlockComment (t :: tokens) ↔ InBlockComment tokens ∨
      t.kind = .blockCommentStart ∧ ∀ u ∈ tokens, u.kind ≠ .blockCommentEnd := by
  constructor
  · rintro ⟨earlier, opener, inside, htokens, hopener, hinside⟩
    cases earlier with
    | nil =>
      obtain ⟨rfl, rfl⟩ := List.cons.inj htokens
      exact Or.inr ⟨hopener, hinside⟩
    | cons u earlier =>
      obtain ⟨rfl, rfl⟩ := List.cons.inj htokens
      exact Or.inl ⟨earlier, opener, inside, rfl, hopener, hinside⟩
  · rintro (⟨earlier, opener, inside, rfl, hopener, hinside⟩ | ⟨ht, hnone⟩)
    · exact ⟨t :: earlier, opener, inside, rfl, hopener, hinside⟩
    · exact ⟨[], t, tokens, rfl, ht, hnone⟩

end Token

namespace Scan.Reads

variable {p q : Place} {tokens : List Token}

/-- A scan is in a block comment exactly if its tokens say so, or if it was there and no closer came
by. -/
theorem mode_eq_blockComment (h : Reads p tokens q) :
    q.mode = .blockComment ↔ Token.InBlockComment tokens ∨
      p.mode = .blockComment ∧ ∀ t ∈ tokens, t.kind ≠ .blockCommentEnd := by
  induction h with
  | refl p => simp [Token.not_inBlockComment_nil]
  | @token p q kind lexeme rest tokens htext hrecognize h ih =>
    have hstep : (p.behind kind lexeme rest).mode = .blockComment ↔
        (p.token kind lexeme).kind = .blockCommentStart ∨
          p.mode = .blockComment ∧ (p.token kind lexeme).kind ≠ .blockCommentEnd :=
      CommentMode.classify_snd_eq_blockComment
    rw [ih, hstep, Token.inBlockComment_cons, List.forall_mem_cons, or_and_right, and_assoc,
      or_assoc]
  | @line p q l later tokens htext hlater h ih =>
    rw [ih, Place.atLine, CommentMode.atLineStart_eq_blockComment]

/-- A scan is in a line comment exactly if there was an opener on the line, or if it was there and
the line is the same. -/
theorem mode_eq_lineComment (h : Reads p tokens q)
    (hlines : (p.unread.map SourceLine.number).Nodup) :
    q.mode = .lineComment ↔ Token.InLineComment tokens q.line ∨
      p.mode = .lineComment ∧ p.line = q.line := by
  induction h with
  | refl p => simp [Token.InLineComment]
  | @token p q kind lexeme rest tokens htext hrecognize h ih =>
    have hstep : (p.behind kind lexeme rest).mode = .lineComment ↔
        (p.token kind lexeme).kind = .lineComment ∨ p.mode = .lineComment :=
      CommentMode.classify_snd_eq_lineComment
    have hline : (p.token kind lexeme).line = p.line := rfl
    have hline' : (p.behind kind lexeme rest).line = p.line := rfl
    have hcons : Token.InLineComment (p.token kind lexeme :: tokens) q.line ↔
        (p.token kind lexeme).kind = .lineComment ∧ p.line = q.line ∨
          Token.InLineComment tokens q.line := List.exists_mem_cons_iff ..
    rw [ih hlines, hstep, hline', hcons, or_and_right, or_left_comm, or_assoc]
  | @line p q l later tokens htext hlater h ih =>
    rw [Place.unread, hlater, List.map_cons, List.nodup_cons] at hlines
    have hne : p.line ≠ q.line := by
      obtain ⟨lines, head, hunread, -⟩ := h.exists_unread_eq
      have hmem : q.line ∈ (p.atLine l later).unread.map SourceLine.number := by
        rw [hunread]
        simp
      exact fun he => hlines.1 (he ▸ hmem)
    rw [ih hlines.2]
    simp [Place.atLine, CommentMode.atLineStart_ne_lineComment, hne]

end Scan.Reads

/-! ### What the grammar does not see -/

/-- A lexeme that the grammar does not see outside comments is a delimiter, or a single blank
character. -/
theorem lexeme_of_recognize_auxiliary {text lexeme : List Char} {kind : TokenKind}
    (h : recognize text = some (kind, lexeme)) (hkind : kind.isAuxiliary = true) :
    kind ∈ [.blockCommentStart, .blockCommentEnd, .lineComment] ∨
      ∃ word ∈ [" ", "\t", "\r", "\n"], lexeme = word.toList := by
  obtain ⟨p, hmem, hread⟩ := exists_read?_of_recognize h
  have hall : ∀ entry ∈ Pattern.table, entry.1.isAuxiliary = true →
      entry.1 ∈ [TokenKind.blockCommentStart, .blockCommentEnd, .lineComment] ∨
        ∃ word ∈ [" ", "\t", "\r", "\n"], entry.2.spelling? = some word := by decide
  rcases hall _ hmem hkind with hdelimiter | ⟨word, hword, hspelling⟩
  · exact Or.inl hdelimiter
  · exact Or.inr ⟨word, hword, Pattern.eq_of_spelling? hspelling hread⟩

/-- The lines of a source have different numbers, none of them zero. -/
theorem SourceLine.nodup_numbers (source : String) :
    (0 :: (ofSource source).map number).Nodup := by
  have hnumbers : (ofSource source).map number =
      (List.range (Text.lines source.toList).length).map (· + 1) := by
    rw [ofSource, List.map_map, List.range_eq_range', ← List.zipIdx_map_snd, List.map_map]
    rfl
  rw [hnumbers, List.nodup_cons]
  refine ⟨?_, List.Nodup.map (add_left_injective 1) List.nodup_range⟩
  simp

namespace Token

/-- A token is part of a comment: it stands in one, or it opens one. -/
def IsCommented (before : List Token) (t : Token) : Prop :=
  InBlockComment before ∨ InLineComment before t.line ∨
    t.kind = .blockCommentStart ∨ t.kind = .lineComment

/-- A token of a source was recognised in the mode that the tokens in front of it tell. -/
theorem exists_mode_of_ofSource {source : String} {before after : List Token} {t : Token}
    (h : ofSource source = .ok (before ++ t :: after)) :
    ∃ mode kind text, recognize text = some (kind, t.lexeme.toList) ∧
      t.kind = (CommentMode.classify mode kind).1 ∧
      (mode = .blockComment ↔ InBlockComment before) ∧
      (mode = .lineComment ↔ InLineComment before t.line) := by
  obtain ⟨q, hreads, -, -⟩ := Scan.exists_reads_of_lines h
  obtain ⟨p, kind, lexeme, rest, hbefore, -, hrecognize, rfl, -⟩ := hreads.exists_of_append
  refine ⟨p.mode, kind, p.text, ?_, rfl, ?_, ?_⟩
  · rw [hrecognize]
    simp [Scan.Place.token]
  · simpa [Scan.Place.start] using hbefore.mode_eq_blockComment
  · have hline : p.mode = .lineComment ↔ InLineComment before p.line ∨ _ :=
      hbefore.mode_eq_lineComment (SourceLine.nodup_numbers source)
    rw [hline]
    simp [Scan.Place.start, Scan.Place.token]

/-- The delimiters of comments and what is between them. A token of a source that closes a comment
stands in a block comment, or it is a closer in code, outside all comments. Of what stands outside
comments the grammar sees everything but single blank characters and such closers; of what is part
of one it sees nothing. -/
theorem comments_delimited {source : String} {before after : List Token} {t : Token}
    (h : ofSource source = .ok (before ++ t :: after)) :
    (t.kind = .blockCommentEnd → InBlockComment before ∨
      ¬IsCommented before t ∧ (t.lexeme = "*/" ∨ t.lexeme = "**/")) ∧
    (t.isSignificant = false → IsCommented before t ∨
      t.lexeme ∈ [" ", "\t", "\r", "\n"] ∨ t.kind = .blockCommentEnd) ∧
    (IsCommented before t → t.isSignificant = false) := by
  obtain ⟨mode, kind, text, hrecognize, hkind, hblock, hline⟩ := exists_mode_of_ofSource h
  by_cases hmode : mode = .code
  · subst hmode
    rw [CommentMode.classify_code_fst] at hkind
    subst hkind
    have hnotBlock : ¬InBlockComment before := by simpa using hblock
    have hnotLine : ¬InLineComment before t.line := by simpa using hline
    refine ⟨fun hcloser => Or.inr ⟨?_, ?_⟩, fun hdropped => ?_, fun hcommented => ?_⟩
    · simp [IsCommented, hnotBlock, hnotLine, hcloser]
    · rw [hcloser] at hrecognize
      simpa [← String.toList_inj] using lexeme_of_recognize_closer hrecognize
    · have hauxiliary : t.kind.isAuxiliary = true := by
        simpa [isSignificant, TokenKind.isSignificant] using hdropped
      rcases lexeme_of_recognize_auxiliary hrecognize hauxiliary with hdelimiter | ⟨word, hword, he⟩
      · simp only [List.mem_cons, List.not_mem_nil, or_false] at hdelimiter
        rcases hdelimiter with hopener | hcloser | hopener
        · exact Or.inl (Or.inr (Or.inr (Or.inl hopener)))
        · exact Or.inr (Or.inr hcloser)
        · exact Or.inl (Or.inr (Or.inr (Or.inr hopener)))
      · exact Or.inr (Or.inl (String.toList_inj.mp he ▸ hword))
    · rcases hcommented with hin | hin | hopener | hopener
      · exact absurd hin hnotBlock
      · exact absurd hin hnotLine
      · rw [isSignificant, hopener]
        rfl
      · rw [isSignificant, hopener]
        rfl
  · have hcommented : IsCommented before t := by
      cases mode with
      | code => exact absurd rfl hmode
      | lineComment => exact Or.inr (Or.inl (hline.mp rfl))
      | blockComment => exact Or.inl (hblock.mp rfl)
    refine ⟨fun hcloser => Or.inl ?_, fun _ => Or.inl hcommented, fun _ => ?_⟩
    · cases mode with
      | code => exact absurd rfl hmode
      | lineComment =>
        rw [hkind] at hcloser
        cases hcloser
      | blockComment => exact hblock.mp rfl
    · rw [isSignificant, hkind]
      exact CommentMode.isSignificant_classify hmode kind

/-- Behind a closed comment another closer stands alone. -/
theorem comments_delimited_stray :
    ∃ before t after, ofSource "/* a */ **/ // b" = .ok (before ++ t :: after) ∧
      t.kind = .blockCommentEnd ∧ (∃ u ∈ before, u.kind = .blockCommentEnd) ∧
      ¬IsCommented before t ∧ (t.lexeme = "*/" ∨ t.lexeme = "**/") := by
  have hrun : ofSource "/* a */ **/ // b" = .ok
      ([⟨1, 1, 2, "/*", .blockCommentStart⟩, ⟨3, 1, 3, " ", .comment⟩, ⟨4, 1, 4, "a", .comment⟩,
        ⟨5, 1, 5, " ", .comment⟩, ⟨6, 1, 7, "*/", .blockCommentEnd⟩,
        ⟨8, 1, 8, " ", .whiteSpace⟩] ++ ⟨9, 1, 11, "**/", .blockCommentEnd⟩ ::
        [⟨12, 1, 12, " ", .whiteSpace⟩, ⟨13, 1, 14, "//", .lineComment⟩,
          ⟨15, 1, 15, " ", .comment⟩, ⟨16, 1, 16, "b", .comment⟩]) := by
    decide +kernel
  refine ⟨_, _, _, hrun, rfl, ⟨⟨6, 1, 7, "*/", .blockCommentEnd⟩, by simp, rfl⟩, ?_⟩
  rcases (comments_delimited hrun).1 rfl with hopen | hstray
  · simp [inBlockComment_cons, not_inBlockComment_nil] at hopen
  · exact hstray

/-- A closer in code has no opener, and the grammar does not see it. -/
theorem closer_without_opener :
    ofSource "*/" = .ok ([] ++ [⟨1, 1, 2, "*/", .blockCommentEnd⟩]) ∧ ¬InBlockComment [] ∧
      ¬IsCommented [] ⟨1, 1, 2, "*/", .blockCommentEnd⟩ ∧
      significant [⟨1, 1, 2, "*/", .blockCommentEnd⟩] = [] := by
  refine ⟨by decide +kernel, not_inBlockComment_nil, ?_, rfl⟩
  simp [IsCommented, not_inBlockComment_nil, InLineComment]

end Token

end PredictiveFrontend

import PredictiveFrontend.Proofs.Token.LineComment
import PredictiveFrontend.Proofs.Token.PatternExpression

/-!
# Blanks between tokens

A pattern looks past its lexeme only to see that a word ends there, and no lexeme goes on with a
blank. So whatever stands behind a token of a line can be put off by a blank: the tokens in front of
the blank stay as they are, and those behind it are moved by one column.
-/

namespace PredictiveFrontend

open Text

/-! ### What is behind a lexeme -/

/-- No word reaches across the end of a text into what is behind it. -/
def IsBreak (text behind : List Char) : Prop :=
  text.getLast?.any isWordCharacter = true → wordRun behind = []

/-- Nothing is there, or a blank is in front of everything. -/
def StartsBlank (text : List Char) : Prop :=
  ∀ c ∈ text.head?, c = ' '

theorem startsBlank_nil : StartsBlank [] := by
  simp [StartsBlank]

theorem startsBlank_cons (rest : List Char) : StartsBlank (' ' :: rest) := by
  simp [StartsBlank]

theorem StartsBlank.wordRun_eq_nil {text : List Char} (h : StartsBlank text) :
    wordRun text = [] := by
  cases text with
  | nil => rfl
  | cons c rest =>
    obtain rfl : c = ' ' := h c rfl
    rfl

/-- What ends a word is told by the first character behind the word. -/
theorem isBreak_append_congr {text more behind behind' : List Char}
    (h : IsBreak (text ++ more) behind) (h' : IsBreak (text ++ more) behind') :
    IsBreak text (more ++ behind) ↔ IsBreak text (more ++ behind') := by
  cases more with
  | nil =>
    rw [List.append_nil] at h h'
    exact iff_of_true h h'
  | cons c more => simp only [IsBreak, wordRun_eq_nil_iff, List.cons_append, List.head?_cons]

namespace Pattern

/-- What is true of the patterns of the table: keywords are words, no other lexeme that is spelled
out ends in a word, and a blank is a lexeme of its own. -/
def isRegular (p : Pattern) : Bool :=
  p.isProper && p.isWord && match p with
    | .literal lexeme =>
      !lexeme.toList.getLast?.any isWordCharacter && !lexeme.toList.tail.contains ' '
    | _ => true

theorem isRegular_of_mem_table {entry : TokenKind × Pattern} (h : entry ∈ table) :
    entry.2.isRegular = true := by
  have hall : ∀ entry ∈ table, entry.2.isRegular = true := by decide +kernel
  exact hall entry h

variable {p : Pattern} {run rest text lexeme : List Char}

/-- A pattern that reads all runs of a language, whatever is behind them. -/
private theorem read?_append_iff_of_spelled {language : List Char → Prop}
    (hread : ∀ run rest, p.read? (run ++ rest) = some run ↔ language run)
    (hends : ∀ run, language run → run.getLast?.any isWordCharacter = false) :
    p.read? (run ++ rest) = some run ↔ p.read? run = some run ∧ IsBreak run rest := by
  have hself := hread run []
  rw [List.append_nil] at hself
  rw [hread run rest, hself, iff_self_and]
  intro hrun hword
  rw [hends run hrun] at hword
  cases hword

/-- A pattern that reads all runs of a language where a word ends. -/
private theorem read?_append_iff_of_words {language : List Char → Prop}
    (hread : ∀ run rest, p.read? (run ++ rest) = some run ↔ language run ∧ wordRun rest = [])
    (hends : ∀ run, language run → IsWordAtEnds run) :
    p.read? (run ++ rest) = some run ↔ p.read? run = some run ∧ IsBreak run rest := by
  have hself := hread run []
  rw [List.append_nil] at hself
  have hnil : wordRun [] = [] := rfl
  rw [hread run rest, hself, and_iff_left hnil, and_congr_right_iff]
  exact fun hrun => ⟨fun hrest _ => hrest, fun hbreak => hbreak (hends run hrun).2⟩

/-- A lexeme is read in front of anything that does not go on with its last word. -/
theorem read?_append_iff (hp : p.isRegular = true) :
    p.read? (run ++ rest) = some run ↔ p.read? run = some run ∧ IsBreak run rest := by
  simp only [isRegular, Bool.and_eq_true] at hp
  obtain ⟨⟨hproper, hword⟩, hshape⟩ := hp
  cases p with
  | literal word =>
    rw [Bool.and_eq_true, Bool.not_eq_true'] at hshape
    refine read?_append_iff_of_spelled (fun _ _ => literal_read?_eq_some) ?_
    rintro run rfl
    exact hshape.1
  | commentCloser =>
    refine read?_append_iff_of_spelled (fun _ _ => commentCloser_read?_eq_some) ?_
    rintro run (rfl | rfl)
    · rfl
    · rfl
  | keyword word =>
    have hne : word.toList ≠ [] := by simpa [isProper] using hproper
    have hall : ∀ c ∈ word.toList, isWordCharacter c = true := List.all_eq_true.mp hword
    refine read?_append_iff_of_words (fun _ _ => keyword_read?_eq_some hall) ?_
    rintro run rfl
    exact isWordAtEnds_of_forall hne hall
  | quotedLetter =>
    refine read?_append_iff_of_spelled (fun _ _ => quotedLetter_read?_eq_some) ?_
    rintro run ⟨c, rfl, -⟩
    rfl
  | fraction =>
    exact read?_append_iff_of_words (fun _ _ => fraction_read?_eq_some)
      fun _ => IsFraction.isWordAtEnds
  | number =>
    refine read?_append_iff_of_words (fun _ _ => number_read?_eq_some) fun run hrun => ?_
    exact isWordAtEnds_of_forall (ne_nil_of_isShortNumber hrun)
      (forall_isWordCharacter_of_isShortNumber hrun)
  | identifier =>
    refine read?_append_iff_of_words (fun _ _ => identifier_read?_eq_some) fun run hrun => ?_
    exact isWordAtEnds_of_forall (ne_nil_of_isIdentifier hrun)
      (forall_isWordCharacter_of_isIdentifier hrun)

/-- A blank begins a lexeme or is not in it. -/
theorem blank_not_mem_tail (hp : p.isRegular = true) (h : p.read? text = some lexeme) :
    ' ' ∉ lexeme.tail := by
  intro hmem
  have hmark := (isWordCharacter_or_mem_marks h (List.mem_of_mem_tail hmem)).resolve_left
    (by decide)
  simp only [isRegular, Bool.and_eq_true] at hp
  cases p with
  | literal word =>
    have htail := (Bool.and_eq_true _ _ ▸ hp.2).2
    rw [eq_of_spelling? rfl h] at hmem
    simp [hmem] at htail
  | keyword | number | identifier => exact absurd hmark List.not_mem_nil
  | commentCloser | quotedLetter | fraction => exact absurd hmark (by decide)

/-- In front of a blank, or of the end, those lexemes are read that lie in front of it. -/
theorem read?_append_startsBlank (hp : p.isRegular = true) {head blank : List Char}
    (hne : head ≠ []) (hblank : StartsBlank blank) (hbreak : IsBreak head rest) :
    p.read? (head ++ blank) = some lexeme ↔
      lexeme <+: head ∧ p.read? (head ++ rest) = some lexeme := by
  have hinside : p.read? (head ++ blank) = some lexeme → lexeme <+: head := by
    intro h
    have hproper : p.isProper = true := by
      simp only [isRegular, Bool.and_eq_true] at hp
      exact hp.1.1
    obtain ⟨after, hafter⟩ := (prefix_of_read? hproper h).1
    rcases List.append_eq_append_iff.mp hafter with ⟨more, rfl, -⟩ | ⟨more, rfl, hmore⟩
    · exact List.prefix_append _ _
    · cases more with
      | nil => exact ⟨[], by rw [List.append_nil, List.append_nil]⟩
      | cons c more =>
        obtain rfl : c = ' ' := hblank c (by rw [hmore]; rfl)
        refine absurd ?_ (blank_not_mem_tail hp h)
        rw [List.tail_append_of_ne_nil hne]
        simp
  rw [← and_iff_right_of_imp hinside, and_congr_right_iff]
  rintro ⟨more, rfl⟩
  have hbreak' : IsBreak (lexeme ++ more) blank := fun _ => hblank.wordRun_eq_nil
  rw [List.append_assoc, List.append_assoc, read?_append_iff hp, read?_append_iff hp,
    isBreak_append_congr hbreak' hbreak]

end Pattern

/-- A text ends a word where a lexeme is recognised in it. -/
theorem isBreak_of_recognize {lexeme rest : List Char} {kind : TokenKind}
    (h : recognize (lexeme ++ rest) = some (kind, lexeme)) : IsBreak lexeme rest := by
  obtain ⟨p, hmem, hread⟩ := exists_read?_of_recognize h
  exact ((Pattern.read?_append_iff (Pattern.isRegular_of_mem_table hmem)).mp hread).2

/-- What is recognised in front of a break is recognised there as well if a blank is put behind
it. -/
theorem recognize_append_startsBlank {head rest blank lexeme : List Char} {kind : TokenKind}
    (h : recognize (head ++ rest) = some (kind, lexeme)) (hlexeme : lexeme <+: head)
    (hbreak : IsBreak head rest) (hblank : StartsBlank blank) :
    recognize (head ++ blank) = some (kind, lexeme) := by
  have hne : head ≠ [] := fun hnil =>
    (prefix_of_recognize h).2 (List.prefix_nil.mp (hnil ▸ hlexeme))
  obtain ⟨earlier, entry, later, htable, hread, hearlier⟩ := List.findSome?_eq_some_iff.mp h
  have hiff : ∀ other ∈ earlier ++ entry :: later, ∀ read,
      other.2.read? (head ++ blank) = some read ↔
        read <+: head ∧ other.2.read? (head ++ rest) = some read :=
    fun other hother read => Pattern.read?_append_startsBlank
      (Pattern.isRegular_of_mem_table (htable ▸ hother)) hne hblank hbreak
  refine List.findSome?_eq_some_iff.mpr ⟨earlier, entry, later, htable, ?_, ?_⟩
  · obtain ⟨read, hself, heq⟩ := Option.map_eq_some_iff.mp hread
    obtain ⟨rfl, rfl⟩ := Prod.mk.inj heq
    exact Option.map_eq_some_iff.mpr
      ⟨_, (hiff entry (by simp) _).mpr ⟨hlexeme, hself⟩, rfl⟩
  · intro other hother
    have hnone := Option.map_eq_none_iff.mp (hearlier other hother)
    rw [Option.map_eq_none_iff, Option.eq_none_iff_forall_ne_some]
    intro read hread'
    have hread'' := ((hiff other (by simp [hother]) read).mp hread').2
    rw [hnone] at hread''
    cases hread''

/-- The kind of a blank is told by whether it is in a comment. -/
theorem CommentMode.classify_whiteSpace (mode : CommentMode) :
    mode.classify .whiteSpace = (if mode.inComment then .comment else .whiteSpace, mode) := by
  cases mode <;> rfl

/-- The token as it is read further to the right. -/
def Token.moved (width : Nat) (t : Token) : Token :=
  { t with column := t.column + width, endIndex := t.endIndex + width }

namespace Scan

variable {mode : CommentMode} {line column : Nat}

/-! ### Tokens in front of a blank, and behind it -/

/-- The columns of the tokens of a text are told from where it begins, and nothing else is. -/
theorem restOfLine_add_column (mode : CommentMode) (line : Nat) {column : Nat} (h : 1 ≤ column)
    (width : Nat) (text : List Char) :
    (restOfLine mode line (column + width) text).mode = (restOfLine mode line column text).mode ∧
      ∀ tokens, (restOfLine mode line column text).result = .ok tokens →
        (restOfLine mode line (column + width) text).result =
          .ok (tokens.map (Token.moved width)) := by
  fun_induction restOfLine mode line column text with
  | case1 =>
    rw [restOfLine_nil]
    exact ⟨rfl, fun tokens htokens => by cases htokens; rfl⟩
  | case2 mode column c rest hnone =>
    rw [restOfLine, hnone]
    exact ⟨rfl, fun tokens htokens => by cases htokens⟩
  | case3 mode column c rest kind lexeme hsome emitted next hclassify lexemeWidth token scan ih =>
    obtain ⟨rfl, rfl⟩ := Prod.mk.inj hclassify
    obtain ⟨hmode, hresult⟩ := ih (by omega)
    have hcolumn : column + width + lexeme.length = column + lexemeWidth + width := by omega
    have hend : column + width - 1 + lexeme.length = column - 1 + lexemeWidth + width := by omega
    rw [restOfLine, hsome]
    simp only [hcolumn, hend]
    refine ⟨hmode, fun tokens htokens => ?_⟩
    obtain ⟨others, hothers, rfl⟩ := map_eq_ok.mp htokens
    exact map_eq_ok.mpr ⟨_, hresult others hothers, rfl⟩

/-- A line breaks behind each of its tokens. -/
theorem isBreak_of_restOfLine {head rest : List Char} {before after : List Token}
    (h : (restOfLine mode line column (head ++ rest)).result = .ok (before ++ after))
    (hhead : Token.characters before = head) : IsBreak head rest := by
  induction before generalizing mode column head with
  | nil =>
    obtain rfl : [] = head := hhead
    exact fun hword => absurd hword (by simp)
  | cons t before ih =>
    obtain ⟨kind, lexeme, behind, htext, hsome, rfl, hbehind⟩ := exists_of_restOfLine_eq_ok_cons h
    obtain rfl : lexeme ++ Token.characters before = head := by
      simpa [Token.characters] using hhead
    rw [List.append_assoc] at htext hsome
    obtain rfl := List.append_cancel_left htext
    cases hbefore : Token.characters before with
    | nil =>
      rw [hbefore] at hsome
      rw [List.append_nil]
      exact isBreak_of_recognize hsome
    | cons c more =>
      have hne : Token.characters before ≠ [] := by simp [hbefore]
      rw [← hbefore, IsBreak, List.getLast?_append_of_ne_nil _ hne]
      exact ih hbehind rfl

/-- A line can be cut behind each of its tokens: with a blank there, or nothing, the tokens in front
are the same, and the scan goes on behind them from the same mode. -/
theorem restOfLine_cut {head rest : List Char} {before after : List Token}
    (h : (restOfLine mode line column (head ++ rest)).result = .ok (before ++ after))
    (hhead : Token.characters before = head) :
    ∃ next, ∀ text, text = rest ∨ StartsBlank text →
      restOfLine mode line column (head ++ text) = (⟨.ok before, next⟩ : Scan).followedBy
        fun next => restOfLine next line (column + head.length) text := by
  have hbreak := isBreak_of_restOfLine h hhead
  induction before generalizing mode column head with
  | nil =>
    obtain rfl : [] = head := hhead
    refine ⟨mode, fun text _ => ?_⟩
    rw [nil_followedBy]
    rfl
  | cons t before ih =>
    obtain ⟨kind, lexeme, behind, htext, hsome, rfl, hbehind⟩ := exists_of_restOfLine_eq_ok_cons h
    obtain rfl : lexeme ++ Token.characters before = head := by
      simpa [Token.characters] using hhead
    rw [List.append_assoc] at htext
    obtain rfl := List.append_cancel_left htext
    obtain ⟨next, hnext⟩ := ih hbehind rfl (isBreak_of_restOfLine hbehind rfl)
    refine ⟨next, fun text htext => ?_⟩
    have hsome' : recognize (lexeme ++ Token.characters before ++ text) = some (kind, lexeme) := by
      rcases htext with rfl | hblank
      · exact hsome
      · exact recognize_append_startsBlank hsome (List.prefix_append _ _) hbreak hblank
    rw [List.append_assoc] at hsome' ⊢
    rw [restOfLine_append hsome', hnext text htext, List.length_append, ← Nat.add_assoc,
      followedBy_of_ok rfl, followedBy_of_ok rfl]
    simp only
    cases (restOfLine next line _ text).result with
    | error e => rfl
    | ok inside => rfl

/-- A blank is a lexeme of its own, whatever is behind it. -/
theorem restOfLine_blank (mode : CommentMode) (line : Nat) {column : Nat} (h : 1 ≤ column)
    (rest : List Char) :
    restOfLine mode line column (' ' :: rest) =
      let scan := restOfLine mode line (column + 1) rest
      ⟨scan.result.map (⟨column, line, column, " ",
        if mode.inComment then .comment else .whiteSpace⟩ :: ·), scan.mode⟩ := by
  have hread : recognize ([' '] ++ rest) = some (.whiteSpace, [' ']) := rfl
  have hend : column - 1 + [' '].length = column := Nat.sub_add_cancel h
  have hscan := restOfLine_append hread mode line column
  rw [CommentMode.classify_whiteSpace, hend] at hscan
  exact hscan

theorem lines_singleton (mode : CommentMode) (line : SourceLine) :
    lines mode [line] = restOfLine mode.atLineStart line.number 1 line.text := by
  rw [lines_cons]
  exact followedBy_nil _

/-- A blank put between two tokens of a line, or in front of them all or behind them all, is one more
token, white space in code and a part of the comment elsewhere, and changes nothing else: the line
is cut into the same lexemes of the same kinds, those behind the blank one column further to the
right, and leaves the same mode. -/
theorem blank_between {number : Nat} {text : List Char} {before after : List Token}
    (h : (lines mode [⟨number, text⟩]).result = .ok (before ++ after)) :
    let head := Token.characters before
    let rest := Token.characters after
    let here := lines mode [⟨number, head⟩]
    text = head ++ rest ∧ here.result = .ok before ∧
      lines mode [⟨number, head ++ ' ' :: rest⟩] =
        ⟨.ok (before ++ ⟨head.length + 1, number, head.length + 1, " ",
          if here.mode.inComment then .comment else .whiteSpace⟩ :: after.map (Token.moved 1)),
          (lines mode [⟨number, text⟩]).mode⟩ := by
  intro head rest here
  simp only [here, lines_singleton] at h ⊢
  have htile := (restOfLine_tile _ number (Nat.le_refl 1) text).1 _ h
  have htext : text = head ++ rest := by
    rw [← htile.text_eq, List.append_nil, Token.characters_append]
  rw [htext] at h ⊢
  obtain ⟨next, hnext⟩ := restOfLine_cut h rfl
  have hhere := hnext [] (Or.inr startsBlank_nil)
  have hall := hnext rest (Or.inl rfl)
  have hblank := hnext (' ' :: rest) (Or.inr (startsBlank_cons rest))
  have hwhole := h
  rw [hall, followedBy_eq_ok] at hwhole
  obtain ⟨_, after', hbefore, hafter, hcancel⟩ := hwhole
  cases hbefore
  obtain rfl : after = after' := List.append_cancel_left hcancel
  have hcolumn : 1 ≤ 1 + head.length := Nat.le_add_right 1 head.length
  obtain ⟨hmode, hmoved⟩ := restOfLine_add_column next number hcolumn 1 rest
  rw [List.append_nil] at hhere
  simp only [restOfLine_nil, followedBy_nil] at hhere
  refine ⟨rfl, ?_, ?_⟩
  · rw [hhere]
  · rw [hblank, hhere, hall, followedBy_of_ok rfl, followedBy_of_ok rfl]
    simp only [restOfLine_blank _ _ hcolumn, hmoved _ hafter, hmode, Except.map]
    rw [Nat.add_comm 1 head.length]

/-- The blank can stand between the name of an array type and a number that touches it, or open a
line that begins inside a comment. -/
theorem blank_between_touching :
    let before : List Token := [⟨1, 7, 1, "a", .comment⟩, ⟨2, 7, 3, "*/", .blockCommentEnd⟩,
      ⟨4, 7, 13, "Array<Int>", .intArrayType⟩]
    let after : List Token := [⟨14, 7, 14, "5", .intLiteral⟩, ⟨15, 7, 16, "/*", .blockCommentStart⟩]
    (lines .blockComment [⟨7, "a*/Array<Int>5/*".toList⟩]).result = .ok (before ++ after) ∧
      lines .blockComment [⟨7, "a*/Array<Int> 5/*".toList⟩] =
        ⟨.ok (before ++ [⟨14, 7, 14, " ", .whiteSpace⟩, ⟨15, 7, 15, "5", .intLiteral⟩,
          ⟨16, 7, 17, "/*", .blockCommentStart⟩]), .blockComment⟩ ∧
      lines .blockComment [⟨7, " a*/Array<Int>5/*".toList⟩] =
        ⟨.ok (⟨1, 7, 1, " ", .comment⟩ :: (before ++ after).map (Token.moved 1)),
          .blockComment⟩ := by
  intro before after
  have hrun : (lines .blockComment [⟨7, "a*/Array<Int>5/*".toList⟩]).result =
      .ok (before ++ after) := by
    decide +kernel
  have hmode : (lines .blockComment [⟨7, "a*/Array<Int>5/*".toList⟩]).mode = .blockComment := by
    decide +kernel
  have hbehind : (lines .blockComment [⟨7, "a*/Array<Int>".toList⟩]).mode = .code := by
    decide +kernel
  obtain ⟨-, -, hbetween⟩ := blank_between hrun
  have hrun' : (lines .blockComment [⟨7, "a*/Array<Int>5/*".toList⟩]).result =
      .ok ([] ++ (before ++ after)) := hrun
  obtain ⟨-, -, hfront⟩ := blank_between hrun'
  refine ⟨hrun, ?_, ?_⟩
  · have hhead : Token.characters before = "a*/Array<Int>".toList := by decide +kernel
    rw [hmode, hhead, hbehind] at hbetween
    exact hbetween
  · have hstart : (lines .blockComment [⟨7, Token.characters []⟩]).mode = .blockComment := by
      decide +kernel
    have htext : Token.characters [] ++ ' ' :: Token.characters (before ++ after) =
        " a*/Array<Int>5/*".toList := by
      decide +kernel
    rw [hmode, hstart, htext] at hfront
    exact hfront

end Scan

end PredictiveFrontend

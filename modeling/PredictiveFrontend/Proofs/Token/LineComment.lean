import PredictiveFrontend.Proofs.Token.Pieces

/-!
# What a line comment hides

A pattern looks at the text behind its lexeme, to see where a word ends, but never past two slashes.
So up to an opener of a line comment a line is cut in the same way whatever is behind it, and behind
it everything is part of the comment.
-/

namespace PredictiveFrontend

open Text

/-! ### Two slashes stop every pattern -/

theorem wordRun_append_cons {c : Char} (hc : isWordCharacter c = false) (text rest : List Char) :
    wordRun (text ++ c :: rest) = wordRun text := by
  rw [wordRun, List.takeWhile_append, wordRun]
  split
  · next hall =>
    rw [List.takeWhile_cons_of_neg (by simp [hc]), List.append_nil]
    exact ((List.takeWhile_prefix _).eq_of_length hall).symm
  · rfl

/-- Whether a word that cannot reach beyond a text begins it does not depend on what is behind the
text. -/
theorem isPrefixOf_append_congr {word text : List Char}
    (h : ∀ more, word = text ++ more → more = []) (rest rest' : List Char) :
    word.isPrefixOf (text ++ rest) = word.isPrefixOf (text ++ rest') := by
  have hiff : ∀ rest, word.isPrefixOf (text ++ rest) = true ↔ word <+: text := by
    intro rest
    rw [List.isPrefixOf_iff_prefix]
    constructor
    · rintro ⟨after, hafter⟩
      rcases List.append_eq_append_iff.mp hafter with ⟨more, htext, -⟩ | ⟨more, hword, -⟩
      · exact ⟨more, htext.symm⟩
      · obtain rfl := h more hword
        exact ⟨[], by rw [List.append_nil, hword, List.append_nil]⟩
    · exact fun hword => hword.trans (List.prefix_append _ _)
  rw [Bool.eq_iff_iff, hiff rest, hiff rest']

/-- Words with a slash only among their last two characters do not go on behind two slashes. -/
theorem isPrefixOf_append_slashes {word : List Char} (h : '/' ∉ word.dropLast.dropLast)
    (head rest rest' : List Char) :
    word.isPrefixOf (head ++ '/' :: '/' :: rest) =
      word.isPrefixOf (head ++ '/' :: '/' :: rest') := by
  have hstops : ∀ more, word = head ++ ['/', '/'] ++ more → more = [] := by
    intro more hword
    by_contra hne
    refine h ?_
    rw [hword, List.dropLast_append_of_ne_nil hne, List.append_assoc,
      List.dropLast_append_of_ne_nil (by simp)]
    simp
  simpa using isPrefixOf_append_congr hstops rest rest'

namespace Pattern

/-- Whether the word of a pattern, if it has one, holds a slash only among its last two
characters. -/
def endsAtSlash (p : Pattern) : Bool :=
  p.spelling?.all fun word => !word.toList.dropLast.dropLast.contains '/'

theorem endsAtSlash_of_mem_table {kind : TokenKind} {p : Pattern} (h : (kind, p) ∈ table) :
    p.endsAtSlash = true := by
  have hall : ∀ entry ∈ table, entry.2.endsAtSlash = true := by decide
  exact hall (kind, p) h

/-- No pattern of the table looks past two slashes. -/
theorem read?_append_slashes {p : Pattern} (hp : p.endsAtSlash = true)
    (head rest rest' : List Char) :
    p.read? (head ++ '/' :: '/' :: rest) = p.read? (head ++ '/' :: '/' :: rest') := by
  have hslash : isWordCharacter '/' = false := by decide
  cases p with
  | literal word =>
    have hword : '/' ∉ word.toList.dropLast.dropLast := by
      simpa [endsAtSlash, spelling?] using hp
    rw [read?, isPrefixOf_append_slashes hword head rest rest', read?]
  | commentCloser =>
    rw [read?, isPrefixOf_append_slashes (by decide) head rest rest',
      isPrefixOf_append_slashes (by decide) head rest rest', read?]
  | keyword word =>
    rw [read?, wordRun_append_cons hslash, read?, wordRun_append_cons hslash]
  | quotedLetter =>
    rcases head with _ | ⟨a, _ | ⟨b, _ | ⟨c, head⟩⟩⟩
    · rfl
    · simp [read?]
    · simp [read?]
    · by_cases ha : a = '\''
      · by_cases hc : c = '\''
        · subst ha hc
          rfl
        · simp [read?, hc]
      · simp [read?, ha]
  | fraction =>
    obtain ⟨after, hafter⟩ := wordRun_starts head
    have hdrop : ∀ rest, (head ++ '/' :: '/' :: rest).drop (wordRun head).length =
        after ++ '/' :: '/' :: rest := by
      intro rest
      have hsplit : head ++ '/' :: '/' :: rest = wordRun head ++ (after ++ '/' :: '/' :: rest) := by
        rw [← List.append_assoc, hafter]
      rw [hsplit, List.drop_left]
    simp only [read?, wordRun_append_cons hslash, hdrop]
    cases after with
    | nil => simp
    | cons c after =>
      by_cases hc : c = '.'
      · subst hc
        simp only [List.cons_append, wordRun_append_cons hslash]
      · simp [hc]
  | number =>
    rw [read?, wordRun_append_cons hslash, read?, wordRun_append_cons hslash]
  | identifier =>
    rw [read?, wordRun_append_cons hslash, read?, wordRun_append_cons hslash]

end Pattern

/-- What is recognised in front of two slashes does not depend on what is behind them. -/
theorem recognize_append_slashes (head rest rest' : List Char) :
    recognize (head ++ '/' :: '/' :: rest) = recognize (head ++ '/' :: '/' :: rest') := by
  rw [recognize_eq_head?, recognize_eq_head?]
  refine congrArg List.head? (List.filterMap_congr fun entry hentry => ?_)
  rw [Pattern.read?_append_slashes (Pattern.endsAtSlash_of_mem_table hentry) head rest rest']

/-! ### Tokens of one line -/

/-- Only in code an opener of a line comment is emitted. -/
theorem CommentMode.eq_code_of_classify {mode : CommentMode} {kind : TokenKind}
    (h : (mode.classify kind).1 = .lineComment) : mode = .code := by
  cases mode <;> cases kind <;> first | rfl | cases h

theorem Token.characters_append (tokens others : List Token) :
    characters (tokens ++ others) = characters tokens ++ characters others :=
  List.flatMap_append

/-- Tokens on a line that are part of a comment and make up a text. -/
structure Token.Swallowed (line : Nat) (text : List Char) (tokens : List Token) : Prop where
  kind_eq : ∀ t ∈ tokens, t.kind = .comment
  line_eq : ∀ t ∈ tokens, t.line = line
  characters_eq : characters tokens = text

namespace Scan

variable {mode : CommentMode} {line column : Nat} {tokens : List Token}

/-- The first token of a text is that of the lexeme recognised there. -/
theorem exists_of_restOfLine_eq_ok_cons {text : List Char} {t : Token} {others : List Token}
    (h : (restOfLine mode line column text).result = .ok (t :: others)) :
    ∃ kind lexeme rest, text = lexeme ++ rest ∧ recognize text = some (kind, lexeme) ∧
      t = ⟨column, line, column - 1 + lexeme.length, String.ofList lexeme,
        (mode.classify kind).1⟩ ∧
      (restOfLine (mode.classify kind).2 line (column + lexeme.length) rest).result =
        .ok others := by
  cases text with
  | nil =>
    rw [restOfLine_nil] at h
    cases h
  | cons c rest =>
    cases hsome : recognize (c :: rest) with
    | none =>
      rw [restOfLine, hsome] at h
      cases h
    | some read =>
      obtain ⟨kind, lexeme⟩ := read
      have htext := append_drop_of_recognize hsome
      refine ⟨kind, lexeme, _, htext, rfl, ?_⟩
      rw [htext] at hsome h
      rw [restOfLine_append hsome] at h
      obtain ⟨others', hothers, hcons⟩ := map_eq_ok.mp h
      obtain ⟨rfl, rfl⟩ := List.cons.inj hcons
      exact ⟨rfl, hothers⟩

/-- A line comment goes on to the end of its line. -/
theorem restOfLine_lineComment (line column : Nat) (text : List Char) :
    (restOfLine .lineComment line column text).mode = .lineComment ∧
      ∀ tokens, (restOfLine .lineComment line column text).result = .ok tokens →
        ∀ t ∈ tokens, t.kind = .comment := by
  generalize hmode : CommentMode.lineComment = mode
  fun_induction restOfLine mode line column text with
  | case1 => exact ⟨rfl, fun tokens h => by cases h; simp⟩
  | case2 => exact ⟨rfl, fun tokens h => by cases h⟩
  | case3 mode column c rest kind lexeme hsome emitted next hclassify width token scan ih =>
    subst hmode
    obtain ⟨rfl, rfl⟩ := Prod.mk.inj hclassify
    obtain ⟨hnext, hothers⟩ := ih rfl
    refine ⟨hnext, fun tokens h => ?_⟩
    obtain ⟨others, hresult, rfl⟩ := map_eq_ok.mp h
    exact List.forall_mem_cons.mpr ⟨rfl, hothers others hresult⟩

theorem swallowed_of_restOfLine (hcolumn : 1 ≤ column) {text : List Char}
    (h : (restOfLine .lineComment line column text).result = .ok tokens) :
    Token.Swallowed line text tokens := by
  have htile := (restOfLine_tile .lineComment line hcolumn text).1 tokens h
  refine ⟨(restOfLine_lineComment line column text).2 tokens h, htile.line_eq, ?_⟩
  rw [← htile.text_eq, List.append_nil]

/-- In front of an opener of a line comment, and at the opener, the scan of a line is the same
whatever is behind the opener. -/
theorem restOfLine_slashes {before after : List Token} {opener : Token} {head rest : List Char}
    (h : (restOfLine mode line column (head ++ '/' :: '/' :: rest)).result =
      .ok (before ++ opener :: after))
    (hhead : Token.characters before = head) (hopener : opener.kind = .lineComment)
    (rest' : List Char) :
    restOfLine mode line column (head ++ '/' :: '/' :: rest') =
      let scan := restOfLine .lineComment line (column + head.length + 2) rest'
      ⟨scan.result.map (before ++ opener :: ·), scan.mode⟩ := by
  induction before generalizing mode column head with
  | nil =>
    obtain rfl : [] = head := hhead
    have hread : ∀ rest, recognize (['/', '/'] ++ rest) = some (.lineComment, ['/', '/']) :=
      fun _ => rfl
    obtain ⟨kind, lexeme, behind, -, hsome, rfl, -⟩ := exists_of_restOfLine_eq_ok_cons h
    obtain ⟨rfl, rfl⟩ := Prod.mk.inj (Option.some.inj ((hread rest).symm.trans hsome))
    obtain rfl := CommentMode.eq_code_of_classify hopener
    exact restOfLine_append (hread rest') .code line column
  | cons t before ih =>
    obtain ⟨kind, lexeme, behind, htext, hsome, rfl, hbehind⟩ := exists_of_restOfLine_eq_ok_cons h
    obtain rfl : lexeme ++ Token.characters before = head := by
      simpa [Token.characters] using hhead
    obtain rfl : behind = Token.characters before ++ '/' :: '/' :: rest := by
      rw [List.append_assoc] at htext
      exact (List.append_cancel_left htext).symm
    rw [recognize_append_slashes _ rest rest', List.append_assoc] at hsome
    rw [List.append_assoc, restOfLine_append hsome, ih hbehind rfl, List.length_append,
      ← Nat.add_assoc column]
    simp only
    cases (restOfLine .lineComment line _ rest').result with
    | error e => rfl
    | ok inside => rfl

/-- Behind an opener of a line comment everything on the line is part of the comment, whatever it
is. -/
theorem swallowed_of_slashes {here inside : List Token} {opener : Token} {head rest : List Char}
    (hcolumn : 1 ≤ column)
    (h : (restOfLine mode line column (head ++ '/' :: '/' :: rest)).result =
      .ok (here ++ opener :: inside))
    (hhead : Token.characters here = head) (hopener : opener.kind = .lineComment)
    (rest' : List Char) :
    (restOfLine mode line column (head ++ '/' :: '/' :: rest')).mode = .lineComment ∧
      ∀ tokens, (restOfLine mode line column (head ++ '/' :: '/' :: rest')).result = .ok tokens →
        ∃ inside', tokens = here ++ opener :: inside' ∧ Token.Swallowed line rest' inside' := by
  rw [restOfLine_slashes h hhead hopener rest']
  refine ⟨(restOfLine_lineComment _ _ rest').1, fun tokens htokens => ?_⟩
  obtain ⟨inside', hinside, rfl⟩ := map_eq_ok.mp htokens
  exact ⟨inside', rfl, swallowed_of_restOfLine (by omega) hinside⟩

/-! ### Tokens of all lines -/

/-- The tokens of lines make up the lines, and none is empty. -/
theorem characters_of_lines {ls : List SourceLine} (h : (lines mode ls).result = .ok tokens) :
    Token.characters tokens = ls.flatMap SourceLine.text ∧ ∀ t ∈ tokens, t.lexeme ≠ "" := by
  obtain ⟨groups, hgroups, rfl⟩ := (lines_groups mode ls).1 tokens h
  clear h
  induction hgroups with
  | nil => exact ⟨rfl, by simp⟩
  | @cons line group ls groups htile hgroups ih =>
    obtain ⟨htext, hne⟩ := ih
    have hline : Token.characters group = line.text := by
      rw [← htile.text_eq, List.append_nil]
    refine ⟨?_, ?_⟩
    · rw [List.flatMap_cons, List.flatten_cons, Token.characters, List.flatMap_append,
        ← Token.characters, hline, ← Token.characters, htext]
    · rw [List.flatten_cons, List.forall_mem_append]
      exact ⟨htile.lexeme_ne, hne⟩

/-- A token in two lists that are put together is in the first one or in the second one. -/
private theorem append_cons_eq_append {before after first second : List Token} {t : Token}
    (h : before ++ t :: after = first ++ second) :
    (∃ inside, first = before ++ t :: inside ∧ after = inside ++ second) ∨
      ∃ inside, before = first ++ inside ∧ second = inside ++ t :: after := by
  rcases List.append_eq_append_iff.mp h with ⟨tail, rfl, htail⟩ | hsecond
  · cases tail with
    | nil => exact Or.inr ⟨[], by simp, htail.symm⟩
    | cons u inside =>
      obtain ⟨rfl, rfl⟩ := List.cons.inj htail
      exact Or.inl ⟨inside, rfl, rfl⟩
  · exact Or.inr hsecond

/-- A token behind the head of a line is one of the tokens of this line. -/
theorem exists_restOfLine_of_lines {prior later : List SourceLine} {number : Nat}
    {head rest : List Char} {before after : List Token} {t : Token}
    (h : (lines mode (prior ++ ⟨number, head ++ rest⟩ :: later)).result =
      .ok (before ++ t :: after))
    (hbefore : Token.characters before = prior.flatMap SourceLine.text ++ head)
    (hrest : rest ≠ []) :
    ∃ first here inside others, before = first ++ here ∧ after = inside ++ others ∧
      (lines mode prior).result = .ok first ∧ Token.characters here = head ∧
      (restOfLine (lines mode prior).mode.atLineStart number 1 (head ++ rest)).result =
        .ok (here ++ t :: inside) ∧
      (lines (restOfLine (lines mode prior).mode.atLineStart number 1 (head ++ rest)).mode
        later).result = .ok others := by
  obtain ⟨first, _, hprior, hlater, hall⟩ := lines_append_eq_ok.mp h
  obtain ⟨line, others, hline, hothers, rfl⟩ := lines_cons_eq_ok.mp hlater
  obtain ⟨hfirst, hne⟩ := characters_of_lines hprior
  have htile := (restOfLine_tile _ number (Nat.le_refl 1) (head ++ rest)).1 line hline
  have hcharacters : Token.characters line = head ++ rest := by
    rw [← htile.text_eq, List.append_nil]
  rcases append_cons_eq_append hall with ⟨inside, rfl, -⟩ | ⟨here, rfl, hbehind⟩
  · -- The characters in front of the token would make up more than the lines in front.
    rw [Token.characters_append, hbefore, List.append_assoc] at hfirst
    obtain ⟨-, hempty, -⟩ : head = [] ∧ t.lexeme = "" ∧ Token.characters inside = [] := by
      simpa [Token.characters] using hfirst
    exact absurd hempty (hne t (by simp))
  · have hhere : Token.characters here = head := by
      rw [Token.characters_append, hfirst] at hbefore
      exact List.append_cancel_left hbefore
    rcases append_cons_eq_append hbehind.symm with ⟨inside, rfl, rfl⟩ | ⟨inside, rfl, -⟩
    · exact ⟨first, here, inside, others, rfl, rfl, hprior, hhere, hline, hothers⟩
    · -- The characters in front of the token would make up more than the head of its line.
      rw [Token.characters_append, hcharacters, List.append_assoc] at hhere
      obtain ⟨hempty, -⟩ : rest = [] ∧ Token.characters inside = [] := by simpa using hhere
      exact absurd hempty hrest

/-- The text of a line comment has no influence. Two scans of lines that differ only behind an
opener of a line comment on one line, where both succeed, come to the same tokens up to the opener
and on all later lines, to the same mode and to the same tokens for the grammar. What they read
behind the opener is part of the comment. -/
theorem line_comment_hides {prior later : List SourceLine} {number : Nat}
    {head rest rest' : List Char} {before after tokens' : List Token} {opener : Token}
    (h : (lines mode (prior ++ ⟨number, head ++ '/' :: '/' :: rest⟩ :: later)).result =
      .ok (before ++ opener :: after))
    (hbefore : Token.characters before = prior.flatMap SourceLine.text ++ head)
    (hopener : opener.kind = .lineComment)
    (h' : (lines mode (prior ++ ⟨number, head ++ '/' :: '/' :: rest'⟩ :: later)).result =
      .ok tokens') :
    ∃ inside inside' others, after = inside ++ others ∧
      tokens' = before ++ opener :: (inside' ++ others) ∧
      Token.Swallowed number rest inside ∧ Token.Swallowed number rest' inside' ∧
      Token.significant tokens' = Token.significant (before ++ opener :: after) ∧
      (lines mode (prior ++ ⟨number, head ++ '/' :: '/' :: rest'⟩ :: later)).mode =
        (lines mode (prior ++ ⟨number, head ++ '/' :: '/' :: rest⟩ :: later)).mode := by
  obtain ⟨first, here, inside, others, rfl, rfl, hprior, hhere, hline, hothers⟩ :=
    exists_restOfLine_of_lines h hbefore (List.cons_ne_nil _ _)
  obtain ⟨_, _, hprior', hlater', rfl⟩ := lines_append_eq_ok.mp h'
  obtain ⟨line', others', hline', hothers', rfl⟩ := lines_cons_eq_ok.mp hlater'
  cases hprior.symm.trans hprior'
  have hswallows := swallowed_of_slashes (Nat.le_refl 1) hline hhere hopener
  obtain ⟨hmode, hinside⟩ := hswallows rest
  obtain ⟨hmode', hinside'⟩ := hswallows rest'
  obtain ⟨inside, heq, hrest⟩ := hinside _ hline
  obtain ⟨rfl⟩ : inside = _ := by simpa using heq.symm
  obtain ⟨inside', rfl, hrest'⟩ := hinside' _ hline'
  rw [hmode] at hothers
  rw [hmode'] at hothers'
  cases hothers.symm.trans hothers'
  refine ⟨inside, inside', others, rfl, by simp, hrest, hrest', ?_, ?_⟩
  · simp only [Token.significant_append, Token.significant_cons, List.append_assoc,
      List.cons_append, Token.significant_eq_nil hrest.kind_eq,
      Token.significant_eq_nil hrest'.kind_eq, List.nil_append]
  · rw [mode_lines_append hprior, mode_lines_cons hline', hmode', mode_lines_append hprior]
    exact (mode_lines_cons hline later).trans (by rw [hmode]) |>.symm

/-- What looks like code, or like the opener of a block comment, does not matter in a line
comment. -/
theorem line_comment_hides_opener :
    let prior : List SourceLine := [⟨1, "a".toList⟩]
    let later : List SourceLine := [⟨3, "b".toList⟩]
    ∃ before after tokens' opener,
      (lines .blockComment
        (prior ++ ⟨2, "*/ 1 ".toList ++ '/' :: '/' :: "x".toList⟩ :: later)).result =
        .ok (before ++ opener :: after) ∧
      Token.characters before = prior.flatMap SourceLine.text ++ "*/ 1 ".toList ∧
      opener.kind = .lineComment ∧
      (lines .blockComment
        (prior ++ ⟨2, "*/ 1 ".toList ++ '/' :: '/' :: "/* 2".toList⟩ :: later)).result =
        .ok tokens' ∧
      Token.significant tokens' = Token.significant (before ++ opener :: after) ∧
      ∃ inside' others, tokens' = before ++ opener :: (inside' ++ others) ∧
        Token.Swallowed 2 "/* 2".toList inside' := by
  intro prior later
  have hrun : (lines .blockComment
      (prior ++ ⟨2, "*/ 1 ".toList ++ '/' :: '/' :: "x".toList⟩ :: later)).result =
      .ok ([⟨1, 1, 1, "a", .comment⟩, ⟨1, 2, 2, "*/", .blockCommentEnd⟩,
        ⟨3, 2, 3, " ", .whiteSpace⟩, ⟨4, 2, 4, "1", .intLiteral⟩, ⟨5, 2, 5, " ", .whiteSpace⟩] ++
        ⟨6, 2, 7, "//", .lineComment⟩ :: [⟨8, 2, 8, "x", .comment⟩,
          ⟨1, 3, 1, "b", .identifier⟩]) := by
    decide +kernel
  have hcolumns : (lines .blockComment
      (prior ++ ⟨2, "*/ 1 ".toList ++ '/' :: '/' :: "/* 2".toList⟩ :: later)).result.map
        (·.map Token.column) = .ok [1, 1, 3, 4, 5, 6, 8, 10, 11, 1] := by
    decide +kernel
  obtain ⟨tokens', hrun', -⟩ := map_eq_ok.mp hcolumns
  have hbefore : Token.characters [⟨1, 1, 1, "a", .comment⟩, ⟨1, 2, 2, "*/", .blockCommentEnd⟩,
      ⟨3, 2, 3, " ", .whiteSpace⟩, ⟨4, 2, 4, "1", .intLiteral⟩, ⟨5, 2, 5, " ", .whiteSpace⟩] =
        prior.flatMap SourceLine.text ++ "*/ 1 ".toList := by
    decide +kernel
  obtain ⟨inside, inside', others, -, htokens, -, hswallowed, hsignificant, -⟩ :=
    line_comment_hides hrun hbefore rfl hrun'
  exact ⟨_, _, tokens', _, hrun, hbefore, rfl, hrun', hsignificant, inside', others, htokens,
    hswallowed⟩

end Scan

end PredictiveFrontend

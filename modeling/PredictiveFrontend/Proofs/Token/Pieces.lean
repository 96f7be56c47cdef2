import PredictiveFrontend.Proofs.Token.BlockComment

/-!
# Scans in pieces

A scan of lines goes on behind other lines as if it had begun there, in the mode that they leave it
in. The mode decides the kinds of the tokens, never whether a text can be cut into lexemes. So lines
that are put between the delimiters of a block comment, each on a line of its own, are gone for the
grammar, and nothing else changes.
-/

namespace PredictiveFrontend

/-- A line that no block comment reaches begins in code. -/
theorem CommentMode.atLineStart_eq_code {mode : CommentMode} (h : mode ≠ .blockComment) :
    mode.atLineStart = .code := by
  cases mode with
  | code => rfl
  | lineComment => rfl
  | blockComment => exact absurd rfl h

namespace Token

theorem significant_append (tokens others : List Token) :
    significant (tokens ++ others) = significant tokens ++ significant others :=
  List.filter_append ..

theorem significant_cons (t : Token) (tokens : List Token) :
    significant (t :: tokens) =
      if t.isSignificant then t :: significant tokens else significant tokens :=
  List.filter_cons

/-- Tokens that are part of a comment are not for the grammar. -/
theorem significant_eq_nil {tokens : List Token} (h : ∀ t ∈ tokens, t.kind = .comment) :
    significant tokens = [] := by
  refine List.filter_eq_nil_iff.mpr fun t ht => ?_
  rw [isSignificant, h t ht]
  decide

end Token

namespace Scan

variable {mode : CommentMode} {tokens : List Token}

/-! ### One lexeme after the other -/

@[simp] theorem restOfLine_nil (mode : CommentMode) (line column : Nat) :
    restOfLine mode line column [] = ⟨.ok [], mode⟩ := by
  rw [restOfLine]

/-- Behind a recognised lexeme the scan goes on with the rest of the line. -/
theorem restOfLine_append {lexeme rest : List Char} {kind : TokenKind}
    (h : recognize (lexeme ++ rest) = some (kind, lexeme)) (mode : CommentMode)
    (line column : Nat) :
    restOfLine mode line column (lexeme ++ rest) =
      let scan := restOfLine (mode.classify kind).2 line (column + lexeme.length) rest
      ⟨scan.result.map (⟨column, line, column - 1 + lexeme.length, String.ofList lexeme,
        (mode.classify kind).1⟩ :: ·), scan.mode⟩ := by
  obtain ⟨-, hne⟩ := prefix_of_recognize h
  obtain ⟨c, tail, rfl⟩ := List.exists_cons_of_ne_nil hne
  rw [List.cons_append] at h ⊢
  rw [restOfLine, h]
  simp only [List.length_cons, Nat.add_sub_cancel, List.drop_left]

/-! ### One line after the other -/

/-- A scan, and behind it another one from the mode that it leaves, unless it stops at an error. -/
def followedBy (scan : Scan) (next : CommentMode → Scan) : Scan :=
  match scan.result with
  | .error e => ⟨.error e, scan.mode⟩
  | .ok tokens => ⟨(next scan.mode).result.map (tokens ++ ·), (next scan.mode).mode⟩

section

variable {scan : Scan} {next : CommentMode → Scan}

theorem followedBy_of_ok (h : scan.result = .ok tokens) :
    scan.followedBy next =
      ⟨(next scan.mode).result.map (tokens ++ ·), (next scan.mode).mode⟩ := by
  rw [followedBy, h]

theorem followedBy_of_error {e : LexError} (h : scan.result = .error e) :
    scan.followedBy next = ⟨.error e, scan.mode⟩ := by
  rw [followedBy, h]

theorem followedBy_eq_ok : (scan.followedBy next).result = .ok tokens ↔ ∃ first others,
    scan.result = .ok first ∧ (next scan.mode).result = .ok others ∧ tokens = first ++ others := by
  cases hscan : scan.result with
  | error e => simp [followedBy_of_error hscan]
  | ok first =>
    rw [followedBy_of_ok hscan, map_eq_ok]
    constructor
    · rintro ⟨others, hothers, rfl⟩
      exact ⟨first, others, rfl, hothers, rfl⟩
    · rintro ⟨_, others, hfirst, hothers, rfl⟩
      cases hfirst
      exact ⟨others, hothers, rfl⟩

theorem followedBy_assoc (scan : Scan) (next later : CommentMode → Scan) :
    (scan.followedBy next).followedBy later =
      scan.followedBy fun mode => (next mode).followedBy later := by
  cases hscan : scan.result with
  | error e => rw [followedBy_of_error hscan, followedBy_of_error rfl, followedBy_of_error hscan]
  | ok tokens =>
    rw [followedBy_of_ok hscan, followedBy_of_ok hscan]
    cases hnext : (next scan.mode).result with
    | error e => rw [followedBy_of_error rfl, followedBy_of_error hnext]; rfl
    | ok others =>
      rw [followedBy_of_ok rfl, followedBy_of_ok hnext]
      cases (later (next scan.mode).mode).result with
      | error e => rfl
      | ok last => simp [Except.map]

/-- Nothing is behind the empty scan, or in front of it. -/
theorem nil_followedBy (mode : CommentMode) (next : CommentMode → Scan) :
    (⟨.ok [], mode⟩ : Scan).followedBy next = next mode := by
  rw [followedBy_of_ok rfl]
  cases next mode with
  | mk result mode => cases result <;> rfl

theorem followedBy_nil (scan : Scan) : (scan.followedBy fun mode => ⟨.ok [], mode⟩) = scan := by
  cases scan with
  | mk result mode =>
    cases result with
    | error e => rfl
    | ok tokens => simp [followedBy, Except.map]

end

theorem lines_cons (mode : CommentMode) (line : SourceLine) (rest : List SourceLine) :
    lines mode (line :: rest) =
      (restOfLine mode.atLineStart line.number 1 line.text).followedBy fun next =>
        lines next rest := by
  rfl

/-- A scan of lines goes on behind other lines from the mode that they leave. -/
theorem lines_append (mode : CommentMode) (ls ls' : List SourceLine) :
    lines mode (ls ++ ls') = (lines mode ls).followedBy fun next => lines next ls' := by
  induction ls generalizing mode with
  | nil =>
    rw [List.nil_append, lines, nil_followedBy]
  | cons line rest ih =>
    rw [List.cons_append, lines_cons, lines_cons, followedBy_assoc]
    simp only [ih]

/-- Lines are cut into tokens exactly if the first one is and, from the mode it leaves, the others
are. -/
theorem lines_cons_eq_ok {line : SourceLine} {rest : List SourceLine} :
    (lines mode (line :: rest)).result = .ok tokens ↔ ∃ first others,
      (restOfLine mode.atLineStart line.number 1 line.text).result = .ok first ∧
      (lines (restOfLine mode.atLineStart line.number 1 line.text).mode rest).result = .ok others ∧
      tokens = first ++ others := by
  rw [lines_cons, followedBy_eq_ok]

theorem mode_lines_cons {line : SourceLine} {first : List Token}
    (h : (restOfLine mode.atLineStart line.number 1 line.text).result = .ok first)
    (rest : List SourceLine) : (lines mode (line :: rest)).mode =
      (lines (restOfLine mode.atLineStart line.number 1 line.text).mode rest).mode := by
  rw [lines_cons, followedBy_of_ok h]

/-- Lines are cut into tokens exactly if some of them are and, from the mode they leave, the others
are. -/
theorem lines_append_eq_ok {ls ls' : List SourceLine} :
    (lines mode (ls ++ ls')).result = .ok tokens ↔ ∃ first others,
      (lines mode ls).result = .ok first ∧
      (lines (lines mode ls).mode ls').result = .ok others ∧ tokens = first ++ others := by
  rw [lines_append, followedBy_eq_ok]

theorem mode_lines_append {ls : List SourceLine} {first : List Token}
    (h : (lines mode ls).result = .ok first) (ls' : List SourceLine) :
    (lines mode (ls ++ ls')).mode = (lines (lines mode ls).mode ls').mode := by
  rw [lines_append, followedBy_of_ok h]

/-! ### The mode and the cut -/

/-- Whether a text can be cut into lexemes does not depend on the mode. -/
theorem exists_restOfLine_eq_ok (mode : CommentMode) (line column : Nat) (text : List Char) :
    ∀ mode' tokens, (restOfLine mode line column text).result = .ok tokens →
      ∃ tokens', (restOfLine mode' line column text).result = .ok tokens' := by
  fun_induction restOfLine mode line column text with
  | case1 mode column => exact fun mode' _ _ => ⟨[], by rw [restOfLine]⟩
  | case2 => exact fun _ _ h => by cases h
  | case3 mode column c rest kind lexeme hsome emitted next hclassify width token scan ih =>
    intro mode' tokens h
    obtain ⟨others, hothers, -⟩ := map_eq_ok.mp h
    obtain ⟨others', hothers'⟩ := ih (mode'.classify kind).2 others hothers
    rw [restOfLine, hsome]
    exact ⟨_, map_eq_ok.mpr ⟨others', hothers', rfl⟩⟩

theorem exists_lines_eq_ok (mode' : CommentMode) {ls : List SourceLine}
    (h : (lines mode ls).result = .ok tokens) :
    ∃ tokens', (lines mode' ls).result = .ok tokens' := by
  induction ls generalizing mode mode' tokens with
  | nil => exact ⟨[], rfl⟩
  | cons line rest ih =>
    obtain ⟨first, others, hfirst, hothers, -⟩ := lines_cons_eq_ok.mp h
    obtain ⟨first', hfirst'⟩ := exists_restOfLine_eq_ok _ _ _ _ mode'.atLineStart first hfirst
    obtain ⟨others', hothers'⟩ := ih _ hothers
    exact ⟨first' ++ others', lines_cons_eq_ok.mpr ⟨first', others', hfirst', hothers', rfl⟩⟩

/-! ### Lines that are commented out -/

/-- A line with nothing but an opener opens a block comment, unless one is open. -/
theorem lines_opener_cons (h : mode ≠ .blockComment) (line : Nat) (rest : List SourceLine) :
    lines mode (⟨line, "/*".toList⟩ :: rest) =
      ⟨(lines .blockComment rest).result.map (⟨1, line, 2, "/*", .blockCommentStart⟩ :: ·),
        (lines .blockComment rest).mode⟩ := by
  have hread : recognize ("/*".toList ++ []) = some (.blockCommentStart, "/*".toList) := rfl
  have hline := restOfLine_append hread .code line 1
  rw [List.append_nil, CommentMode.classify, restOfLine_nil] at hline
  rw [lines, CommentMode.atLineStart_eq_code h, hline]
  rfl

/-- A line with nothing but a closer ends a block comment. -/
theorem lines_closer_cons (line : Nat) (rest : List SourceLine) :
    lines .blockComment (⟨line, "*/".toList⟩ :: rest) =
      ⟨(lines .code rest).result.map (⟨1, line, 2, "*/", .blockCommentEnd⟩ :: ·),
        (lines .code rest).mode⟩ := by
  have hread : recognize ("*/".toList ++ []) = some (.blockCommentEnd, "*/".toList) := rfl
  have hline := restOfLine_append hread .blockComment line 1
  rw [List.append_nil, CommentMode.classify, restOfLine_nil] at hline
  have hstart : CommentMode.atLineStart .blockComment = .blockComment := rfl
  rw [lines, hstart, hline]
  rfl

/-- Lines without the text of a closer stay in a block comment, if they can be cut at all. -/
theorem exists_comment_of_lines {ls : List SourceLine} (h : (lines mode ls).result = .ok tokens)
    (hclosed : ∀ l ∈ ls, ¬['*', '/'] <:+: l.text) :
    ∃ inside, (lines .blockComment ls).result = .ok inside ∧ (∀ t ∈ inside, t.kind = .comment) ∧
      (lines .blockComment ls).mode = .blockComment := by
  obtain ⟨inside, hinside⟩ := exists_lines_eq_ok .blockComment h
  obtain ⟨q, hreads, -, hmode⟩ := exists_reads_of_lines hinside
  have hnone : ∀ l ∈ (Place.start .blockComment ls).unread, ∀ i, ¬ClosesAt l.text i := by
    refine List.forall_mem_cons.mpr ⟨fun i => not_closesAt_nil i, fun l hl i => ?_⟩
    rintro ⟨before, after, htext, -⟩
    exact hclosed l hl ⟨before, after, by rw [htext]; simp⟩
  obtain ⟨hkinds, hq⟩ := hreads.comment_of_not_closesAt rfl hnone
  exact ⟨inside, hinside, hkinds, hmode ▸ hq⟩

/-- To put lines between an opener and a closer, each on a line of its own, is to take them away.
The lines in front leave no block comment open, and those in between hold no closer. -/
theorem commented_lines_vanish {prior hidden later : List SourceLine}
    {first inside others : List Token} (hprior : (lines .code prior).result = .ok first)
    (hhidden : (lines .code hidden).result = .ok inside)
    (hlater : (lines .code later).result = .ok others)
    (hmode : (lines .code prior).mode ≠ .blockComment)
    (hclosed : ∀ l ∈ hidden, ¬['*', '/'] <:+: l.text) (opener closer : Nat) :
    let all := prior ++ ⟨opener, "/*".toList⟩ :: (hidden ++ ⟨closer, "*/".toList⟩ :: later)
    ∃ tokens, (lines .code all).result = .ok tokens ∧
      Token.significant tokens = Token.significant first ++ Token.significant others ∧
      (lines .code all).mode = (lines .code later).mode := by
  intro all
  obtain ⟨inside', hinside, hkinds, hcomment⟩ := exists_comment_of_lines hhidden hclosed
  -- The lines behind the opener, as they are scanned inside the comment it opens.
  have hbehind : (lines .blockComment (hidden ++ ⟨closer, "*/".toList⟩ :: later)).result =
      .ok (inside' ++ ⟨1, closer, 2, "*/", .blockCommentEnd⟩ :: others) := by
    refine lines_append_eq_ok.mpr ⟨inside', _, hinside, ?_, rfl⟩
    rw [hcomment, lines_closer_cons, hlater]
    rfl
  have hmodeBehind : (lines .blockComment (hidden ++ ⟨closer, "*/".toList⟩ :: later)).mode =
      (lines .code later).mode := by
    rw [mode_lines_append hinside, hcomment, lines_closer_cons]
  refine ⟨first ++ ⟨1, opener, 2, "/*", .blockCommentStart⟩ :: (inside' ++
    ⟨1, closer, 2, "*/", .blockCommentEnd⟩ :: others), ?_, ?_, ?_⟩
  · refine lines_append_eq_ok.mpr ⟨first, _, hprior, ?_, rfl⟩
    rw [lines_opener_cons hmode, hbehind]
    rfl
  · rw [Token.significant_append, Token.significant_cons, Token.significant_append,
      Token.significant_cons, Token.significant_eq_nil hkinds]
    rfl
  · rw [mode_lines_append hprior, lines_opener_cons hmode, hmodeBehind]

/-- Neither a line comment in front nor delimiters of other comments in between matter. -/
theorem commented_lines_vanish_nested :
    let prior : List SourceLine := [⟨1, "x // y".toList⟩]
    let hidden : List SourceLine := [⟨3, "val /* // 1".toList⟩, ⟨4, "* /".toList⟩]
    let later : List SourceLine := [⟨6, "z /*".toList⟩]
    let all := prior ++ ⟨2, "/*".toList⟩ :: (hidden ++ ⟨5, "*/".toList⟩ :: later)
    (lines .code prior).mode = .lineComment ∧ (∀ l ∈ hidden, ¬['*', '/'] <:+: l.text) ∧
      ∃ tokens, (lines .code all).result = .ok tokens ∧
        Token.significant tokens = [⟨1, 1, 1, "x", .identifier⟩, ⟨1, 6, 1, "z", .identifier⟩] ∧
        (lines .code all).mode = .blockComment := by
  intro prior hidden later all
  have hprior : (lines .code prior).result = .ok [⟨1, 1, 1, "x", .identifier⟩,
      ⟨2, 1, 2, " ", .whiteSpace⟩, ⟨3, 1, 4, "//", .lineComment⟩, ⟨5, 1, 5, " ", .comment⟩,
      ⟨6, 1, 6, "y", .comment⟩] := by
    decide +kernel
  have hhidden : ∃ inside, (lines .code hidden).result = .ok inside := by
    have hcolumns : (lines .code hidden).result.map (·.map Token.column) =
        .ok [1, 4, 5, 7, 8, 10, 11, 1, 2, 3] := by
      decide +kernel
    obtain ⟨inside, hinside, -⟩ := map_eq_ok.mp hcolumns
    exact ⟨inside, hinside⟩
  have hlater : (lines .code later).result = .ok [⟨1, 6, 1, "z", .identifier⟩,
      ⟨2, 6, 2, " ", .whiteSpace⟩, ⟨3, 6, 4, "/*", .blockCommentStart⟩] := by
    decide +kernel
  have hmode : (lines .code prior).mode = .lineComment := by decide +kernel
  have hclosed : ∀ l ∈ hidden, ¬['*', '/'] <:+: l.text := by decide +kernel
  have hopen : (lines .code prior).mode ≠ .blockComment := by
    rw [hmode]
    decide
  obtain ⟨inside, hinside⟩ := hhidden
  obtain ⟨tokens, htokens, hsignificant, hend⟩ :=
    commented_lines_vanish hprior hinside hlater hopen hclosed 2 5
  refine ⟨hmode, hclosed, tokens, htokens, hsignificant, ?_⟩
  rw [hend]
  decide +kernel

end Scan

end PredictiveFrontend

import PredictiveFrontend.Proofs.Token.Scan

/-!
# Scans token by token

A scan goes from one place to the next, behind a token or at the start of a new line. What it reads
on the way from one place to another depends on nothing that it read before, so a scan is cut in two
at any of its tokens.
-/

namespace PredictiveFrontend

namespace Scan

/-- Where a scan stands between two tokens. -/
structure Place where
  /-- The comment mode in which the next token is read. -/
  mode : CommentMode
  /-- The number of the line. -/
  line : Nat
  /-- The column of the next character. -/
  column : Nat
  /-- What is left of the line. -/
  text : List Char
  /-- The lines behind this one. -/
  later : List SourceLine

namespace Place

/-- The place in front of lines, at the end of a line of which nothing is left. -/
def start (mode : CommentMode) (ls : List SourceLine) : Place :=
  ⟨mode, 0, 1, [], ls⟩

/-- All that is left to be read, as lines. -/
def unread (p : Place) : List SourceLine :=
  ⟨p.line, p.text⟩ :: p.later

/-- Whether everything is read. -/
def IsEnd (p : Place) : Prop :=
  p.text = [] ∧ p.later = []

/-- The token of a lexeme that is recognised at a place. -/
def token (p : Place) (kind : TokenKind) (lexeme : List Char) : Token :=
  ⟨p.column, p.line, p.column - 1 + lexeme.length, String.ofList lexeme, (p.mode.classify kind).1⟩

/-- The place behind a lexeme that is recognised, in front of the rest of the line. -/
def behind (p : Place) (kind : TokenKind) (lexeme rest : List Char) : Place :=
  ⟨(p.mode.classify kind).2, p.line, p.column + lexeme.length, rest, p.later⟩

/-- The place at the start of the next line. -/
def atLine (p : Place) (line : SourceLine) (later : List SourceLine) : Place :=
  ⟨p.mode.atLineStart, line.number, 1, line.text, later⟩

end Place

/-- The tokens that are read on the way from one place to another. -/
inductive Reads : Place → List Token → Place → Prop where
  | refl (p : Place) : Reads p [] p
  /-- A lexeme is recognised. -/
  | token {p q : Place} {kind : TokenKind} {lexeme rest : List Char} {tokens : List Token}
    (htext : p.text = lexeme ++ rest) (hrecognize : recognize p.text = some (kind, lexeme))
    (h : Reads (p.behind kind lexeme rest) tokens q) : Reads p (p.token kind lexeme :: tokens) q
  /-- Nothing is left of the line, and there is another one. -/
  | line {p q : Place} {l : SourceLine} {later : List SourceLine} {tokens : List Token}
    (htext : p.text = []) (hlater : p.later = l :: later) (h : Reads (p.atLine l later) tokens q) :
    Reads p tokens q

namespace Reads

variable {p q r : Place} {tokens : List Token}

theorem trans {others : List Token} (h : Reads p tokens q) (h' : Reads q others r) :
    Reads p (tokens ++ others) r := by
  induction h with
  | refl => exact h'
  | token htext hrecognize _ ih => exact .token htext hrecognize (ih h')
  | line htext hlater _ ih => exact .line htext hlater (ih h')

/-- A scan is cut in two at any of its tokens. -/
theorem exists_of_append {before after : List Token} {t : Token}
    (h : Reads p (before ++ t :: after) r) :
    ∃ q kind lexeme rest, Reads p before q ∧ q.text = lexeme ++ rest ∧
      recognize q.text = some (kind, lexeme) ∧ t = q.token kind lexeme ∧
      Reads (q.behind kind lexeme rest) after r := by
  generalize hall : before ++ t :: after = all at h
  induction h generalizing before with
  | refl =>
    cases before with
    | nil => cases hall
    | cons => cases hall
  | @token p q kind lexeme rest tokens htext hrecognize h ih =>
    cases before with
    | nil =>
      obtain ⟨rfl, rfl⟩ := List.cons.inj hall
      exact ⟨p, kind, lexeme, rest, .refl p, htext, hrecognize, rfl, h⟩
    | cons u before =>
      obtain ⟨rfl, htokens⟩ := List.cons.inj hall
      obtain ⟨q', kind', lexeme', rest', hbefore, hq⟩ := ih htokens
      exact ⟨q', kind', lexeme', rest', .token htext hrecognize hbefore, hq⟩
  | line htext hlater h ih =>
    obtain ⟨q', kind', lexeme', rest', hbefore, hq⟩ := ih hall
    exact ⟨q', kind', lexeme', rest', .line htext hlater hbefore, hq⟩

/-- What is read lies in front of what is left: some lines and the head of the line that the scan
has come to. -/
theorem exists_unread_eq (h : Reads p tokens q) :
    ∃ lines head, p.unread = lines ++ ⟨q.line, head ++ q.text⟩ :: q.later ∧
      Token.characters tokens = lines.flatMap SourceLine.text ++ head ∧
      q.column = (if lines = [] then p.column else 1) + head.length := by
  induction h with
  | refl p => exact ⟨[], [], rfl, rfl, rfl⟩
  | @token p q kind lexeme rest tokens htext hrecognize h ih =>
    obtain ⟨lines, head, hunread, hcharacters, hcolumn⟩ := ih
    have hcharacters' : Token.characters (p.token kind lexeme :: tokens) =
        lexeme ++ (lines.flatMap SourceLine.text ++ head) := by
      rw [← hcharacters]
      simp [Token.characters, Place.token]
    cases lines with
    | nil =>
      obtain ⟨hline, hlater⟩ := List.cons.inj hunread
      obtain ⟨hnumber, hrest⟩ : p.line = q.line ∧ rest = head ++ q.text := SourceLine.mk.inj hline
      have hlater : p.later = q.later := hlater
      refine ⟨[], lexeme ++ head, ?_, hcharacters', ?_⟩
      · rw [Place.unread, htext, hrest, hnumber, hlater, List.append_assoc]
        rfl
      · rw [hcolumn, List.length_append]
        exact Nat.add_assoc ..
    | cons first lines =>
      obtain ⟨rfl, hlater⟩ := List.cons.inj hunread
      have hlater : p.later = lines ++ ⟨q.line, head ++ q.text⟩ :: q.later := hlater
      refine ⟨⟨p.line, p.text⟩ :: lines, head, ?_, ?_, hcolumn⟩
      · rw [Place.unread, hlater]
        rfl
      · rw [hcharacters', htext]
        simp [Place.behind]
  | @line p q l later tokens htext hlater h ih =>
    obtain ⟨lines, head, hunread, hcharacters, hcolumn⟩ := ih
    have hp : p.unread = ⟨p.line, []⟩ :: (p.atLine l later).unread := by
      rw [Place.unread, htext, hlater]
      rfl
    refine ⟨⟨p.line, []⟩ :: lines, head, ?_, hcharacters, ?_⟩
    · rw [hp, hunread]
      rfl
    · rw [hcolumn]
      simp [Place.atLine]

/-- Where something is left of a line, the scan of some lines has come to one of them. -/
theorem exists_lines_eq {mode : CommentMode} {ls : List SourceLine}
    (h : Reads (.start mode ls) tokens p) (htext : p.text ≠ []) :
    ∃ prior head, ls = prior ++ ⟨p.line, head ++ p.text⟩ :: p.later ∧
      Token.characters tokens = prior.flatMap SourceLine.text ++ head ∧
      p.column = head.length + 1 := by
  obtain ⟨lines, head, hunread, hcharacters, hcolumn⟩ := h.exists_unread_eq
  cases lines with
  | nil =>
    have hnil : [] = head ++ p.text := (SourceLine.mk.inj (List.cons.inj hunread).1).2
    exact absurd (List.append_eq_nil_iff.mp hnil.symm).2 htext
  | cons first prior =>
    obtain ⟨rfl, hls⟩ := List.cons.inj hunread
    refine ⟨prior, head, hls, hcharacters, ?_⟩
    rw [hcolumn, if_neg (List.cons_ne_nil _ _), Nat.add_comm]

end Reads

/-- A recognised lexeme stands in front of what is left behind it. -/
theorem append_drop_of_recognize {c : Char} {rest lexeme : List Char} {kind : TokenKind}
    (h : recognize (c :: rest) = some (kind, lexeme)) :
    c :: rest = lexeme ++ rest.drop (lexeme.length - 1) := by
  obtain ⟨hstart, hne⟩ := prefix_of_recognize h
  have hpos : 0 < lexeme.length := List.length_pos_iff.mpr hne
  have happend := List.prefix_iff_eq_append.mp hstart
  rw [← Nat.succ_pred_eq_of_pos hpos, List.drop_succ_cons] at happend
  exact happend.symm

/-- A scan of a line that succeeds reads its tokens and comes to the end of the line. -/
theorem exists_reads_of_restOfLine (mode : CommentMode) (line column : Nat) (text : List Char)
    (later : List SourceLine) :
    ∀ tokens, (restOfLine mode line column text).result = .ok tokens →
      ∃ column', Reads ⟨mode, line, column, text, later⟩ tokens
        ⟨(restOfLine mode line column text).mode, line, column', [], later⟩ := by
  fun_induction restOfLine mode line column text with
  | case1 mode column =>
    intro tokens h
    cases h
    exact ⟨column, .refl _⟩
  | case2 =>
    intro tokens h
    cases h
  | case3 mode column c rest kind lexeme hsome emitted next hclassify width token scan ih =>
    intro tokens h
    obtain ⟨others, hothers, rfl⟩ := map_eq_ok.mp h
    obtain ⟨column', hreads⟩ := ih others hothers
    obtain ⟨rfl, rfl⟩ := Prod.mk.inj hclassify
    exact ⟨column', .token (append_drop_of_recognize hsome) hsome hreads⟩

/-- A scan of lines that succeeds reads its tokens and comes to the end. -/
theorem exists_reads_of_lines {mode : CommentMode} {ls : List SourceLine} {tokens : List Token}
    (h : (lines mode ls).result = .ok tokens) :
    ∃ q, Reads (.start mode ls) tokens q ∧ q.IsEnd ∧ q.mode = (lines mode ls).mode := by
  suffices hall : ∀ number column, ∃ q, Reads ⟨mode, number, column, [], ls⟩ tokens q ∧ q.IsEnd ∧
      q.mode = (lines mode ls).mode from hall 0 1
  induction ls generalizing mode tokens with
  | nil =>
    cases h
    exact fun number column => ⟨_, .refl _, ⟨rfl, rfl⟩, rfl⟩
  | cons line rest ih =>
    intro number column
    rw [lines] at h ⊢
    cases hfirst : (restOfLine mode.atLineStart line.number 1 line.text).result with
    | error e =>
      simp only [hfirst] at h
      cases h
    | ok first =>
      simp only [hfirst] at h ⊢
      obtain ⟨others, hothers, rfl⟩ := map_eq_ok.mp h
      obtain ⟨column', hreads⟩ := exists_reads_of_restOfLine _ _ _ _ rest first hfirst
      obtain ⟨q, hrest, hend⟩ := ih hothers line.number column'
      exact ⟨q, .line rfl rfl (hreads.trans hrest), hend⟩

end Scan

end PredictiveFrontend

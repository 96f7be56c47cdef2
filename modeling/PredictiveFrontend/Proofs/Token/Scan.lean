import PredictiveFrontend.Proofs.Result
import PredictiveFrontend.Proofs.Text.Lines
import PredictiveFrontend.Proofs.Token.Recognition
import PredictiveFrontend.Token.Scan
import Mathlib.Data.List.Chain

/-!
# Scans lose nothing

The tokens of a line lie side by side from its first column on, and their lexemes make up the line,
or what is left of it where no pattern reads anything. The columns count characters, however many
bytes they take, and the comment mode changes kinds but no lexemes. The lines themselves make up the
source.
-/

namespace PredictiveFrontend

/-- What the grammar sees is classified as what it is. -/
theorem CommentMode.classify_eq_of_isSignificant {mode : CommentMode} {kind : TokenKind}
    (h : (mode.classify kind).1.isSignificant = true) : (mode.classify kind).1 = kind := by
  cases mode <;> cases kind <;> first | rfl | cases h

/-- The characters of tokens, one token after the other. -/
def Token.characters (tokens : List Token) : List Char :=
  tokens.flatMap fun t => t.lexeme.toList

/-- Tokens that lie side by side on a line, from a column on, and make up a text but for a
remainder. -/
structure Token.Tile (line column : Nat) (text remainder : List Char) (tokens : List Token) :
    Prop where
  /-- The lexemes and the remainder are the text. -/
  text_eq : characters tokens ++ remainder = text
  lexeme_ne : ∀ t ∈ tokens, t.lexeme ≠ ""
  line_eq : ∀ t ∈ tokens, t.line = line
  /-- The first token begins at the column. -/
  column_head : ∀ t ∈ tokens.head?, t.column = column
  /-- Every other token begins behind the one before it. -/
  column_next : tokens.IsChain fun t u => u.column = t.endIndex + 1
  /-- A token is as wide as its lexeme is long. -/
  width : ∀ t ∈ tokens, t.column ≤ t.endIndex ∧ t.endIndex - t.column + 1 = t.lexeme.length
  /-- Every lexeme was recognised where it stands, and classified by some mode. -/
  recognized : ∀ before t after, tokens = before ++ t :: after →
    ∃ kind mode, recognize (t.lexeme.toList ++ (characters after ++ remainder)) =
      some (kind, t.lexeme.toList) ∧ t.kind = (CommentMode.classify mode kind).1

namespace Token.Tile

variable {line column : Nat} {text remainder : List Char} {tokens : List Token}

theorem nil (line column : Nat) (text : List Char) : Tile line column text text [] where
  text_eq := rfl
  lexeme_ne := by simp
  line_eq := by simp
  column_head := by simp
  column_next := .nil
  width := by simp
  recognized := by simp

/-- A token in front of others that go on behind it. -/
theorem cons (mode : CommentMode) (hcolumn : 1 ≤ column) {kind : TokenKind} {lexeme : List Char}
    (hne : lexeme ≠ []) (hrecognize : recognize (lexeme ++ text) = some (kind, lexeme))
    (h : Tile line (column + lexeme.length) text remainder tokens) :
    Tile line column (lexeme ++ text) remainder
      (⟨column, line, column - 1 + lexeme.length, String.ofList lexeme, (mode.classify kind).1⟩ ::
        tokens) where
  text_eq := by
    rw [← h.text_eq]
    simp [characters]
  lexeme_ne := by
    rw [List.forall_mem_cons]
    exact ⟨by simpa using hne, h.lexeme_ne⟩
  line_eq := by
    rw [List.forall_mem_cons]
    exact ⟨rfl, h.line_eq⟩
  column_head := by simp
  column_next := by
    refine h.column_next.cons fun t ht => ?_
    rw [h.column_head t ht]
    show column + lexeme.length = column - 1 + lexeme.length + 1
    omega
  width := by
    rw [List.forall_mem_cons]
    refine ⟨?_, h.width⟩
    have hpos : 0 < lexeme.length := List.length_pos_iff.mpr hne
    simp only [String.length_ofList]
    omega
  recognized := by
    intro before t after heq
    cases before with
    | nil =>
      obtain ⟨rfl, rfl⟩ := List.cons.inj heq
      refine ⟨kind, mode, ?_, rfl⟩
      rw [h.text_eq, String.toList_ofList]
      exact hrecognize
    | cons u before =>
      obtain ⟨-, rfl⟩ := List.cons.inj heq
      exact h.recognized before t after rfl

end Token.Tile

/-- An error that stops the scan of a text at a remainder that no pattern reads, behind tokens that
make up the rest of the text. -/
structure LexError.StopsBehind (e : LexError) (line column : Nat) (text : List Char)
    (tokens : List Token) : Prop where
  tile : Token.Tile line column text e.remainder.toList tokens
  line_eq : e.line = line
  /-- The column is the one behind all characters of the tokens. -/
  column_eq : e.column = column + (Token.characters tokens).length
  remainder_ne : e.remainder ≠ ""
  unread : ∀ entry ∈ Pattern.table, entry.2.read? e.remainder.toList = none

namespace Scan

/-- A scan of the rest of a line cuts it into tokens, or stops with an error behind some. -/
theorem restOfLine_tile (mode : CommentMode) (line : Nat) {column : Nat} (hcolumn : 1 ≤ column)
    (text : List Char) :
    (∀ tokens, (restOfLine mode line column text).result = .ok tokens →
      Token.Tile line column text [] tokens) ∧
    (∀ e, (restOfLine mode line column text).result = .error e →
      ∃ tokens, e.StopsBehind line column text tokens) := by
  fun_induction restOfLine mode line column text with
  | case1 mode column =>
    refine ⟨fun tokens h => ?_, fun e h => ?_⟩
    · cases h
      exact .nil line column []
    · cases h
  | case2 mode column c rest hnone =>
    refine ⟨fun tokens h => ?_, fun e h => ?_⟩
    · cases h
    · cases h
      refine ⟨[], ?_, rfl, rfl, by simp, ?_⟩
      · rw [String.toList_ofList]
        exact .nil line column (c :: rest)
      · rw [String.toList_ofList]
        exact recognize_eq_none.mp hnone
  | case3 mode column c rest kind lexeme hsome emitted next hclassify width token scan ih =>
    obtain ⟨hstart, hne⟩ := prefix_of_recognize hsome
    have hpos : 0 < lexeme.length := List.length_pos_iff.mpr hne
    have htext : lexeme ++ rest.drop (width - 1) = c :: rest := by
      have happend := List.prefix_iff_eq_append.mp hstart
      rwa [← Nat.succ_pred_eq_of_pos hpos, List.drop_succ_cons] at happend
    obtain rfl : emitted = (mode.classify kind).1 := by rw [hclassify]
    rw [← htext] at hsome ⊢
    obtain ⟨hok, herror⟩ := ih (by omega)
    refine ⟨fun tokens h => ?_, fun e h => ?_⟩
    · obtain ⟨others, hothers, rfl⟩ := map_eq_ok.mp h
      exact (hok others hothers).cons mode hcolumn hne hsome
    · obtain ⟨others, hothers⟩ := herror e (map_eq_error.mp h)
      refine ⟨_, hothers.tile.cons mode hcolumn hne hsome, hothers.line_eq, ?_,
        hothers.remainder_ne, hothers.unread⟩
      rw [hothers.column_eq]
      simp [Token.characters, width, Nat.add_assoc]

/-- The tokens of lines in groups, one group for each line. -/
def Groups (ls : List SourceLine) (groups : List (List Token)) : Prop :=
  List.Forall₂ (fun line group => Token.Tile line.number 1 line.text [] group) ls groups

/-- A scan of lines that succeeds gives one group of tokens for each of them, and one that fails
stops in the first line that it cannot cut into tokens. -/
theorem lines_groups (mode : CommentMode) (ls : List SourceLine) :
    (∀ tokens, (lines mode ls).result = .ok tokens →
      ∃ groups, Groups ls groups ∧ tokens = groups.flatten) ∧
    (∀ e, (lines mode ls).result = .error e →
      ∃ before line after groups read, ls = before ++ line :: after ∧ Groups before groups ∧
        (lines mode before).result = .ok groups.flatten ∧
        e.StopsBehind line.number 1 line.text read) := by
  induction ls generalizing mode with
  | nil =>
    refine ⟨fun tokens h => ?_, fun e h => ?_⟩
    · cases h
      exact ⟨[], .nil, rfl⟩
    · cases h
  | cons line rest ih =>
    obtain ⟨hok, herror⟩ := restOfLine_tile mode.atLineStart line.number (Nat.le_refl 1) line.text
    cases hfirst : (restOfLine mode.atLineStart line.number 1 line.text).result with
    | error e =>
      refine ⟨fun tokens h => ?_, fun e' h => ?_⟩
      · simp only [lines, hfirst] at h
        cases h
      · simp only [lines, hfirst] at h
        cases h
        obtain ⟨read, hread⟩ := herror e hfirst
        exact ⟨[], line, rest, [], read, rfl, .nil, rfl, hread⟩
    | ok tokens =>
      obtain ⟨hothers, hstops⟩ := ih (restOfLine mode.atLineStart line.number 1 line.text).mode
      refine ⟨fun all h => ?_, fun e h => ?_⟩
      · simp only [lines, hfirst] at h
        obtain ⟨others, ho, rfl⟩ := map_eq_ok.mp h
        obtain ⟨groups, hgroups, rfl⟩ := hothers others ho
        exact ⟨tokens :: groups, .cons (hok tokens hfirst) hgroups, rfl⟩
      · simp only [lines, hfirst] at h
        obtain ⟨before, line', after, groups, read, rfl, hgroups, hbefore, hread⟩ :=
          hstops e (map_eq_error.mp h)
        refine ⟨line :: before, line', after, tokens :: groups, read, rfl,
          .cons (hok tokens hfirst) hgroups, ?_, hread⟩
        simp only [lines, hfirst, hbefore, Except.map, List.flatten_cons]

end Scan

/-- A token that the grammar sees was recognised, with its kind. -/
theorem Token.exists_recognize_of_mem {source : String} {tokens : List Token}
    (h : ofSource source = .ok tokens) {t : Token} (ht : t ∈ tokens)
    (hsignificant : t.isSignificant = true) :
    ∃ text, recognize text = some (t.kind, t.lexeme.toList) := by
  obtain ⟨groups, hgroups, rfl⟩ := (Scan.lines_groups .code _).1 tokens h
  obtain ⟨group, hgroup, ht⟩ := List.mem_flatten.mp ht
  obtain ⟨line, -, htile⟩ := exists_of_forall₂_of_mem hgroups hgroup
  obtain ⟨before, after, rfl⟩ := List.append_of_mem ht
  obtain ⟨kind, mode, hrecognize, hkind⟩ := htile.recognized before t after rfl
  have hsame : t.kind = kind := by
    rw [isSignificant, hkind] at hsignificant
    rw [hkind]
    exact CommentMode.classify_eq_of_isSignificant hsignificant
  rw [hsame]
  exact ⟨_, hrecognize⟩

/-- The lines of a source, joined by line feeds, make up the source but for a final line feed. -/
theorem SourceLine.intercalate_ofSource (source : String) :
    ['\n'].intercalate ((ofSource source).map text) =
      Text.dropFinalLineFeed source.toList := by
  have htexts : (ofSource source).map text = Text.lines source.toList := by
    simp [ofSource, Function.comp_def]
  rw [htexts, Text.lines]
  split
  · next h =>
    rw [h]
    rfl
  · exact Text.intercalate_pieces _

/-- A scan accounts for every character. The tokens of lines fall into groups, one for each line,
that make the line up; an error stops the scan behind tokens of the first line that cannot be made
up so, at the rest of the line, which no pattern reads. The lines make up their source. -/
theorem Scan.lossless :
    (∀ mode ls tokens, (lines mode ls).result = .ok tokens →
      ∃ groups, Groups ls groups ∧ tokens = groups.flatten) ∧
    (∀ mode ls e, (lines mode ls).result = .error e →
      ∃ before line after groups read, ls = before ++ line :: after ∧ Groups before groups ∧
        (lines mode before).result = .ok groups.flatten ∧
        e.StopsBehind line.number 1 line.text read) ∧
    ∀ source : String, ['\n'].intercalate ((SourceLine.ofSource source).map SourceLine.text) ++
      (if source.toList.getLast? = some '\n' then ['\n'] else []) = source.toList := by
  refine ⟨fun mode ls => (lines_groups mode ls).1, fun mode ls => (lines_groups mode ls).2,
    fun source => ?_⟩
  rw [SourceLine.intercalate_ofSource]
  exact Text.dropFinalLineFeed_append source.toList

/-- Digits of any script make up numbers, but a letter beyond the basic Latin block is not read,
not even in a comment. -/
theorem Scan.lossless_digits :
    (∃ tokens groups, (lines .code [⟨1, "x ٣٤".toList⟩]).result = .ok tokens ∧
      Groups [⟨1, "x ٣٤".toList⟩] groups ∧ tokens = groups.flatten) ∧
    ∃ before line after groups read,
      (lines .blockComment [⟨1, []⟩, ⟨2, "٣ é".toList⟩]).result = .error ⟨2, 3, "é"⟩ ∧
      [⟨1, []⟩, ⟨2, "٣ é".toList⟩] = before ++ line :: after ∧ Groups before groups ∧
      (lines .blockComment before).result = .ok groups.flatten ∧
      LexError.StopsBehind ⟨2, 3, "é"⟩ line.number 1 line.text read := by
  obtain ⟨hok, herror, -⟩ := lossless
  constructor
  · have hrun : ((lines .code [⟨1, "x ٣٤".toList⟩]).result).map (·.map Token.column) =
        .ok [1, 2, 3] := by
      decide +kernel
    obtain ⟨tokens, htokens, -⟩ := map_eq_ok.mp hrun
    obtain ⟨groups, hgroups, he⟩ := hok .code _ tokens htokens
    exact ⟨tokens, groups, htokens, hgroups, he⟩
  · have hrun : (lines .blockComment [⟨1, []⟩, ⟨2, "٣ é".toList⟩]).result =
        .error ⟨2, 3, "é"⟩ := by
      decide +kernel
    obtain ⟨before, line, after, groups, read, he, hgroups, hbefore, hstops⟩ :=
      herror .blockComment _ _ hrun
    exact ⟨before, line, after, groups, read, hrun, he, hgroups, hbefore, hstops⟩

end PredictiveFrontend

import PredictiveFrontend.Proofs.Grammar.Symbols
import PredictiveFrontend.Proofs.Text.Lines
import PredictiveFrontend.Proofs.Tree.Labels
import PredictiveFrontend.Tree.Drawing
import Mathlib

/-!
# Drawings show trees

A tree can be read off its drawing, apart from what a drawing does not show: the rules, and all but
the beginnings of long lexemes. A line tells how deep its node stands, since what is drawn below a
connector differs from every connector in its first character, so the lines of the nodes below a
node end where one begins that does not stand behind their margin. The label on a line tells the
symbol and the lexeme, since no name holds the blank between the two.
-/

namespace PredictiveFrontend

/-- Names that are written in a text, and the two fixed ones, hold no blanks and no line feeds. -/
theorem CompiledGrammar.forall_isNameCharacter_name {text : String} {options : CompileOptions}
    {g : CompiledGrammar} (hg : ofText text options = .ok g) (c : Code) :
    ∀ x ∈ (g.name c).toList, LineToken.isNameCharacter x = true := by
  simp only [ofText, bind_eq_ok, ofGrammar, map_eq_ok] at hg
  obtain ⟨grammar, hgrammar, table, -, rfl⟩ := hg
  have hnames := Grammar.isNameCharacter_of_ofText hgrammar
  rw [name, Alphabet.name]
  cases hname : grammar.alphabet.names[c]? with
  | none => simp
  | some name => exact hnames name (List.mem_of_getElem? hname)

namespace ParseTree

/-! ### What is shown -/

/-- The lexeme of a leaf as it is shown. -/
def shownLexeme? (t : ParseTree) : Option String :=
  t.token?.map fun token => abbreviated token.lexeme

/-- Trees of one shape, with the same symbols and the same lexemes as far as they are shown. -/
inductive Alike : ParseTree → ParseTree → Prop where
  | intro {t u : ParseTree} (hsymbol : t.symbol = u.symbol)
    (hlexeme : t.shownLexeme? = u.shownLexeme?)
    (hchildren : List.Forall₂ Alike t.children u.children) : Alike t u

/-- A tree whose symbols are names without blanks, and no line feed is in a name or a lexeme. -/
inductive IsPlain : ParseTree → Prop where
  | intro {t : ParseTree}
    (hsymbol : ∀ x ∈ t.symbol.toList, LineToken.isNameCharacter x = true)
    (hlexeme : ∀ token ∈ t.token?, '\n' ∉ token.lexeme.toList)
    (hchildren : ∀ u ∈ t.children, IsPlain u) : IsPlain t

/-- What holds of several trees whenever it holds of the ones below the first and of the others. -/
@[elab_as_elim] theorem forest_induction {P : List ParseTree → Prop} (nil : P [])
    (cons : ∀ t ts, P t.children → P ts → P (t :: ts)) (ts : List ParseTree) : P ts := by
  induction hn : sizeAll ts using Nat.strong_induction_on generalizing ts with
  | _ n ih =>
    cases ts with
    | nil => exact nil
    | cons t ts =>
      rw [sizeAll, size_eq] at hn
      exact cons t ts (ih _ (by omega) _ rfl) (ih _ (by omega) _ rfl)

/-! ### Labels -/

/-- A label is the symbol, with the shown lexeme behind it. -/
theorem label_eq (t : ParseTree) :
    t.label = t.symbol ++ (t.shownLexeme?.elim "" fun lexeme => ": " ++ lexeme) := by
  cases t with
  | leaf symbol token =>
    cases token with
    | none => exact (String.append_empty ..).symm
    | some token => exact String.append_assoc ..
  | _ => exact (String.append_empty ..).symm

/-- A blank that is the first one in two equal texts stands at the same place in them. -/
theorem eq_of_append_blank {u v x y : List Char} (hu : ' ' ∉ u) (hv : ' ' ∉ v)
    (h : u ++ ' ' :: x = v ++ ' ' :: y) : u = v ∧ x = y := by
  induction u generalizing v with
  | nil =>
    cases v with
    | nil => exact ⟨rfl, (List.cons.inj h).2⟩
    | cons c v => exact absurd (List.mem_cons.mpr (Or.inl (List.cons.inj h).1)) hv
  | cons c u ih =>
    cases v with
    | nil => exact absurd (List.mem_cons.mpr (Or.inl (List.cons.inj h).1.symm)) hu
    | cons d v =>
      obtain ⟨rfl, hrest⟩ := List.cons.inj h
      rw [List.mem_cons, not_or] at hu hv
      obtain ⟨rfl, hxy⟩ := ih hu.2 hv.2 hrest
      exact ⟨rfl, hxy⟩

theorem IsPlain.blank_not_mem {t : ParseTree} (h : t.IsPlain) : ' ' ∉ t.symbol.toList := by
  obtain ⟨hsymbol, -, -⟩ := h
  exact fun hmem => absurd (hsymbol ' ' hmem) (by decide)

/-- The label of a tree tells its symbol and its lexeme. -/
theorem IsPlain.eq_of_label_eq {t u : ParseTree} (ht : t.IsPlain) (hu : u.IsPlain)
    (h : t.label = u.label) : t.symbol = u.symbol ∧ t.shownLexeme? = u.shownLexeme? := by
  have hchars := congrArg String.toList h
  rw [label_eq, label_eq, String.toList_append, String.toList_append] at hchars
  have hcolon : ∀ {v : ParseTree}, v.IsPlain → ' ' ∉ v.symbol.toList ++ [':'] := fun hv => by
    simpa using hv.blank_not_mem
  cases hl : t.shownLexeme? with
  | none =>
    cases hl' : u.shownLexeme? with
    | none => exact ⟨String.toList_injective (by simpa [hl, hl'] using hchars), rfl⟩
    | some lexeme =>
      refine absurd ?_ ht.blank_not_mem
      simp only [hl, hl', Option.elim, String.toList_append] at hchars
      rw [String.toList_empty, List.append_nil] at hchars
      simp [hchars]
  | some lexeme =>
    cases hl' : u.shownLexeme? with
    | none =>
      refine absurd ?_ hu.blank_not_mem
      simp only [hl, hl', Option.elim, String.toList_append] at hchars
      rw [String.toList_empty, List.append_nil] at hchars
      simp [← hchars]
    | some lexeme' =>
      simp only [hl, hl', Option.elim, String.toList_append] at hchars
      obtain ⟨hsymbol, hlexeme⟩ := eq_of_append_blank (hcolon ht) (hcolon hu)
        (x := lexeme.toList) (y := lexeme'.toList) (by simpa using hchars)
      rw [List.append_cancel_right_eq] at hsymbol
      exact ⟨String.toList_injective hsymbol, congrArg some (String.toList_injective hlexeme)⟩

/-! ### Lines -/

/-- The line of a node stands in front of the lines of the nodes below it. -/
theorem drawnLines_eq (margin : String) (isLast : Bool) (t : ParseTree) :
    drawnLines margin isLast t =
      (margin ++ connector isLast ++ t.label) ::
        drawnLinesAll (margin ++ continuation isLast) t.children := by
  cases t <;> simp [drawnLines, drawnLinesAll, children]

/-- A line behind a margin tells the connector and the label. -/
theorem eq_of_connector_eq {margin x y : String} {isLast isLast' : Bool}
    (h : margin ++ connector isLast ++ x = margin ++ connector isLast' ++ y) :
    isLast = isLast' ∧ x = y := by
  rw [String.append_assoc, String.append_assoc, String.append_right_inj] at h
  have hchars := congrArg String.toList h
  rw [String.toList_append, String.toList_append] at hchars
  cases isLast <;> cases isLast' <;> simp [connector] at hchars ⊢
  · exact String.toList_injective hchars
  · exact String.toList_injective hchars

/-- The first one of some lines, if there is any, does not stand behind a margin. -/
def Leaves (margin : String) (rest : List String) : Prop :=
  ∀ line ∈ rest.head?, ¬ margin.toList <+: line.toList

/-- The line of a child stands behind the margin. -/
theorem not_leaves_cons (margin : String) (t : ParseTree) (ts : List ParseTree)
    (rest : List String) : ¬ Leaves margin (drawnLinesAll margin (t :: ts) ++ rest) := by
  intro h
  refine h (margin ++ connector ts.isEmpty ++ t.label) ?_ ?_
  · rw [drawnLinesAll, drawnLines_eq]
    rfl
  · rw [String.append_assoc, String.toList_append]
    exact List.prefix_append ..

/-- What is drawn below a connector does not go on with the lines of the other children, nor with
what comes behind them. -/
theorem leaves_continuation {margin : String} {rest : List String} (h : Leaves margin rest)
    (isLast : Bool) (ts : List ParseTree) :
    Leaves (margin ++ continuation isLast) (drawnLinesAll margin ts ++ rest) := by
  intro line hline hprefix
  rw [String.toList_append] at hprefix
  cases ts with
  | nil =>
    rw [drawnLinesAll, List.nil_append] at hline
    exact h line hline ((List.prefix_append ..).trans hprefix)
  | cons t ts =>
    rw [drawnLinesAll, drawnLines_eq, List.cons_append, List.cons_append, List.head?_cons] at hline
    obtain rfl := Option.some.inj hline
    rw [String.toList_append, String.toList_append, List.append_assoc,
      List.prefix_append_right_inj] at hprefix
    generalize ts.isEmpty = isLast' at hprefix
    cases isLast <;> cases isLast' <;> simp [continuation, connector] at hprefix

/-- Lines behind one margin tell the trees that they show and where their lines end. -/
theorem forall₂_alike_of_drawnLinesAll_append {ts us : List ParseTree} {margin : String}
    {rest rest' : List String} (hts : ∀ t ∈ ts, t.IsPlain) (hus : ∀ u ∈ us, u.IsPlain)
    (hrest : Leaves margin rest) (hrest' : Leaves margin rest')
    (h : drawnLinesAll margin ts ++ rest = drawnLinesAll margin us ++ rest') :
    List.Forall₂ Alike ts us ∧ rest = rest' := by
  induction ts using forest_induction generalizing us margin rest rest' with
  | nil =>
    cases us with
    | nil => exact ⟨.nil, h⟩
    | cons u us =>
      rw [drawnLinesAll, List.nil_append] at h
      exact absurd (h ▸ hrest) (not_leaves_cons margin u us rest')
  | cons t ts ihchildren ih =>
    cases us with
    | nil =>
      rw [drawnLinesAll.eq_def margin [], List.nil_append] at h
      exact absurd (h ▸ hrest') (not_leaves_cons margin t ts rest)
    | cons u us =>
      obtain ⟨ht, hts⟩ := List.forall_mem_cons.mp hts
      obtain ⟨hu, hus⟩ := List.forall_mem_cons.mp hus
      simp only [drawnLinesAll, drawnLines_eq, List.cons_append, List.append_assoc] at h
      obtain ⟨hline, hlines⟩ := List.cons.inj h
      obtain ⟨hlast, hlabel⟩ := eq_of_connector_eq hline
      obtain ⟨hsymbol, hlexeme⟩ := ht.eq_of_label_eq hu hlabel
      obtain ⟨-, -, htchildren⟩ := ht
      obtain ⟨-, -, huchildren⟩ := hu
      rw [hlast] at hlines
      obtain ⟨hchildren, hothers⟩ := ihchildren htchildren huchildren
        (leaves_continuation hrest _ ts) (leaves_continuation hrest' _ us) hlines
      obtain ⟨hrests, hend⟩ := ih hts hus hrest hrest' hothers
      exact ⟨.cons (.intro hsymbol hlexeme hchildren) hrests, hend⟩

/-- Trees that are alike are drawn alike. -/
theorem drawnLinesAll_eq_of_forall₂ {ts us : List ParseTree} (h : List.Forall₂ Alike ts us)
    (margin : String) : drawnLinesAll margin ts = drawnLinesAll margin us := by
  induction ts using forest_induction generalizing us margin with
  | nil =>
    cases h
    rfl
  | cons t ts ihchildren ih =>
    cases h with
    | cons halike hrest =>
      next u us =>
      obtain ⟨hsymbol, hlexeme, hchildren⟩ := halike
      have hempty : ts.isEmpty = us.isEmpty := by cases hrest <;> rfl
      rw [drawnLinesAll, drawnLinesAll, drawnLines_eq, drawnLines_eq, label_eq, label_eq, hsymbol,
        hlexeme, hempty, ih hrest, ihchildren hchildren]

/-! ### Texts -/

/-- What is shown of a lexeme without line feeds has none. -/
theorem lineFeed_not_mem_abbreviated {text : String} (h : '\n' ∉ text.toList) :
    '\n' ∉ (abbreviated text).toList := by
  rw [abbreviated]
  split
  · rw [String.toList_append, String.toList_ofList, List.mem_append, not_or]
    exact ⟨fun hmem => h (List.mem_of_mem_take hmem), by decide⟩
  · exact h

theorem IsPlain.lineFeed_not_mem_label {t : ParseTree} (h : t.IsPlain) :
    '\n' ∉ t.label.toList := by
  obtain ⟨hsymbol, hlexeme, -⟩ := h
  rw [label_eq, String.toList_append, List.mem_append, not_or]
  refine ⟨fun hmem => absurd (hsymbol '\n' hmem) (by decide), ?_⟩
  rw [shownLexeme?]
  cases htoken : t.token? with
  | none => simp
  | some token =>
    have hshown := lineFeed_not_mem_abbreviated (hlexeme token htoken)
    simpa using hshown

/-- The lines of plain trees hold no line feeds. -/
theorem lineFeed_not_mem_drawnLinesAll {ts : List ParseTree} {margin : String}
    (hts : ∀ t ∈ ts, t.IsPlain) (hmargin : '\n' ∉ margin.toList) :
    ∀ line ∈ drawnLinesAll margin ts, '\n' ∉ line.toList := by
  induction ts using forest_induction generalizing margin with
  | nil => simp [drawnLinesAll]
  | cons t ts ihchildren ih =>
    obtain ⟨ht, hts⟩ := List.forall_mem_cons.mp hts
    have hlabel := ht.lineFeed_not_mem_label
    obtain ⟨-, -, hchildren⟩ := ht
    have hconnector : ∀ isLast, '\n' ∉ (connector isLast).toList := by decide
    have hcontinuation : ∀ isLast, '\n' ∉ (continuation isLast).toList := by decide
    rw [drawnLinesAll, drawnLines_eq]
    intro line hline
    rcases List.mem_append.mp hline with hline | hline
    · rcases List.mem_cons.mp hline with rfl | hline
      · simp only [String.toList_append, List.mem_append, not_or]
        exact ⟨⟨hmargin, hconnector _⟩, hlabel⟩
      · refine ihchildren hchildren ?_ line hline
        simp only [String.toList_append, List.mem_append, not_or]
        exact ⟨hmargin, hcontinuation _⟩
    · exact ih hts hmargin line hline

/-- A drawing is the lines of the one tree, each of them ended by a line feed. -/
theorem drawing_eq (t : ParseTree) :
    t.drawing = String.join ((drawnLinesAll "" [t]).map (· ++ "\n")) := by
  rw [drawnLinesAll, drawnLinesAll, List.append_nil]
  rfl

/-- The lines of a plain tree are read back from its drawing. -/
theorem pieces_drawing {t : ParseTree} (ht : t.IsPlain) :
    Text.pieces t.drawing.toList = (drawnLinesAll "" [t]).map String.toList ++ [[]] := by
  have hlines : ∀ line ∈ (drawnLinesAll "" [t]).map String.toList, '\n' ∉ line := by
    have hline : ∀ line ∈ drawnLinesAll "" [t], '\n' ∉ line.toList :=
      lineFeed_not_mem_drawnLinesAll (by simpa using ht) (by decide)
    simpa using hline
  rw [← Text.pieces_flatMap_ended hlines, drawing_eq, String.toList_join, List.flatMap_map,
    List.flatMap_map]
  simp [String.toList_append]

/-- The drawing of a plain tree shows it up to likeness. -/
theorem drawing_eq_iff_alike {t u : ParseTree} (ht : t.IsPlain) (hu : u.IsPlain) :
    t.drawing = u.drawing ↔ Alike t u := by
  constructor
  · intro h
    have hpieces := congrArg (fun text => Text.pieces text.toList) h
    simp only [pieces_drawing ht, pieces_drawing hu, List.append_cancel_right_eq] at hpieces
    have hlines : drawnLinesAll "" [t] = drawnLinesAll "" [u] :=
      List.map_injective_iff.mpr (fun _ _ he => String.toList_injective he) hpieces
    have hnil : Leaves "" [] := by simp [Leaves]
    have hts : ∀ v ∈ [t], v.IsPlain := by simpa using ht
    have hus : ∀ v ∈ [u], v.IsPlain := by simpa using hu
    obtain ⟨halike, -⟩ := forall₂_alike_of_drawnLinesAll_append hts hus hnil hnil
      (congrArg (· ++ []) hlines)
    exact (List.forall₂_cons.mp halike).1
  · intro h
    rw [drawing_eq, drawing_eq, drawnLinesAll_eq_of_forall₂ (.cons h .nil)]

/-! ### Trees of derivations -/

/-- What is grown over plain tokens is plain. -/
theorem isPlain_of_grow {g : CompiledGrammar}
    (hnames : ∀ c, ∀ x ∈ (g.name c).toList, LineToken.isNameCharacter x = true)
    {symbols : List Code} {steps : List (Nat × Nat)} {tokens : List Token}
    {growth : Growth steps.length} (htokens : ∀ token ∈ tokens, '\n' ∉ token.lexeme.toList)
    (h : grow g symbols steps tokens = .ok growth) :
    (∀ t ∈ growth.trees, t.IsPlain) ∧ ∀ token ∈ growth.tokens, '\n' ∉ token.lexeme.toList := by
  induction symbols, steps, tokens using grow.induct g with
  | case1 steps tokens =>
    rw [grow] at h
    cases h
    exact ⟨by simp, htokens⟩
  | case2 steps tokens c others hc ih =>
    rw [grow_terminal _ _ _ hc] at h
    obtain ⟨rest, hrest, he⟩ := bind_eq_ok.mp h
    cases he
    obtain ⟨htrees, hleft⟩ := ih (fun token hmem => htokens token (List.mem_of_mem_tail hmem)) hrest
    refine ⟨List.forall_mem_cons.mpr ⟨.intro (hnames c) ?_ (by simp [children]), htrees⟩, hleft⟩
    exact fun token hhead => htokens token (List.mem_of_mem_head? hhead)
  | case3 tokens c others hc ih =>
    rw [Bool.not_eq_true] at hc
    rw [grow_unexpanded _ _ hc] at h
    obtain ⟨rest, hrest, he⟩ := bind_eq_ok.mp h
    cases he
    obtain ⟨htrees, hleft⟩ := ih (by simp) hrest
    refine ⟨List.forall_mem_cons.mpr ⟨.intro (hnames c) ?_ (by simp [children]), htrees⟩, hleft⟩
    rintro _ ⟨⟩
  | case4 tokens c others hc step later ihbelow ihrest =>
    rw [Bool.not_eq_true] at hc
    rw [grow_node _ _ _ hc] at h
    obtain ⟨r, hr, h⟩ := bind_eq_ok.mp h
    obtain ⟨below, hbelow, h⟩ := bind_eq_ok.mp h
    obtain ⟨rest, hrest, he⟩ := bind_eq_ok.mp h
    cases he
    simp only [dite_eq_ite] at ihbelow
    obtain ⟨hbelows, hmiddle⟩ := ihbelow r htokens hbelow
    obtain ⟨htrees, hleft⟩ := ihrest below hmiddle hrest
    refine ⟨List.forall_mem_cons.mpr ⟨.intro (hnames c) (by rintro _ ⟨⟩) ?_, htrees⟩, hleft⟩
    intro u hu
    simp only [children] at hu
    split at hu
    · obtain rfl := List.mem_singleton.mp hu
      have hepsilon : ∀ x ∈ SymbolName.epsilon.toList, LineToken.isNameCharacter x = true :=
        List.all_eq_true.mp (by decide)
      exact .intro hepsilon (by rintro _ ⟨⟩) (by simp [children])
    · exact hbelows u hu

/-- The tree of a derivation over plain tokens is plain. -/
theorem isPlain_of_ofDerivation {text : String} {options : CompileOptions} {g : CompiledGrammar}
    (hg : CompiledGrammar.ofText text options = .ok g) {d : Derivation} {tokens : List Token}
    (htokens : ∀ token ∈ Token.significant tokens, '\n' ∉ token.lexeme.toList) {t : ParseTree}
    (h : ofDerivation g d tokens = .ok t) : t.IsPlain := by
  rw [ofDerivation, ofRules] at h
  obtain ⟨growth, hgrow, h⟩ := bind_eq_ok.mp h
  obtain ⟨htrees, -⟩ := isPlain_of_grow (CompiledGrammar.forall_isNameCharacter_name hg) htokens hgrow
  obtain ⟨tree, htree⟩ := List.length_eq_one_iff.mp (length_trees hgrow)
  rw [htree] at htrees h
  split at h
  · cases h
    exact htrees tree (List.mem_singleton_self tree)
  · cases h

/-- Two trees that derivations give over tokens without line feeds, whatever the grammars are, are
drawn alike exactly if they have the same shape, the same symbol at every node, and the same shown
lexeme at every leaf that holds a token. -/
theorem drawing_eq_iff {text text' : String} {options options' : CompileOptions}
    {g g' : CompiledGrammar} (hg : CompiledGrammar.ofText text options = .ok g)
    (hg' : CompiledGrammar.ofText text' options' = .ok g') {d d' : Derivation}
    {tokens tokens' : List Token}
    (htokens : ∀ token ∈ Token.significant tokens, '\n' ∉ token.lexeme.toList)
    (htokens' : ∀ token ∈ Token.significant tokens', '\n' ∉ token.lexeme.toList)
    {t u : ParseTree} (ht : ofDerivation g d tokens = .ok t)
    (hu : ofDerivation g' d' tokens' = .ok u) : t.drawing = u.drawing ↔ Alike t u :=
  drawing_eq_iff_alike (isPlain_of_ofDerivation hg htokens ht)
    (isPlain_of_ofDerivation hg' htokens' hu)

/-- The derivation of one step, which expands `S`. -/
def expandOnce (number : Nat) : Derivation :=
  ⟨[⟨number, "S", ["a", "S", "b"]⟩], 1⟩

/-- A token whose lexeme has thirty characters and some more. -/
def longToken (more : String) : Token :=
  ⟨1, 1, 30 + more.length, "abcdefghijklmnopqrstuvwxyz0123" ++ more, .identifier⟩

/-- Two grammars number their rules differently, and two lexemes differ behind the thirtieth
character. No drawing shows either. -/
theorem drawing_eq_iff_cut :
    ∃ g g' t u, CompiledGrammar.ofText "S -> a S b | EPSILON" {} = .ok g ∧
      CompiledGrammar.ofText "S -> EPSILON | a S b" {} = .ok g' ∧
      ofDerivation g (expandOnce 0) [longToken "45"] = .ok t ∧
      ofDerivation g' (expandOnce 1) [longToken "6"] = .ok u ∧ t.rules ≠ u.rules ∧
      t.tokens ≠ u.tokens ∧ Alike t u := by
  have hrun : (CompiledGrammar.ofText "S -> a S b | EPSILON" {}).map (fun g =>
      (ofDerivation g (expandOnce 0) [longToken "45"]).map fun t =>
        (t.drawing, t.rules, t.tokens)) =
          .ok (.ok ("└─ S\n  ├─ a: abcdefghijklmnopqrstuvwxyz0123...\n  ├─ S\n  └─ b\n", [0],
            [longToken "45"])) := by
    cbv
  have hrun' : (CompiledGrammar.ofText "S -> EPSILON | a S b" {}).map (fun g =>
      (ofDerivation g (expandOnce 1) [longToken "6"]).map fun t =>
        (t.drawing, t.rules, t.tokens)) =
          .ok (.ok ("└─ S\n  ├─ a: abcdefghijklmnopqrstuvwxyz0123...\n  ├─ S\n  └─ b\n", [1],
            [longToken "6"])) := by
    cbv
  obtain ⟨g, hg, hrun⟩ := map_eq_ok.mp hrun
  obtain ⟨t, ht, hshown⟩ := map_eq_ok.mp hrun
  obtain ⟨g', hg', hrun'⟩ := map_eq_ok.mp hrun'
  obtain ⟨u, hu, hshown'⟩ := map_eq_ok.mp hrun'
  simp only [Prod.mk.injEq] at hshown hshown'
  obtain ⟨hdrawing, hrules, htokens⟩ := hshown
  obtain ⟨hdrawing', hrules', htokens'⟩ := hshown'
  refine ⟨g, g', t, u, hg, hg', ht, hu, ?_, ?_, ?_⟩
  · rw [hrules, hrules']
    decide
  · rw [htokens, htokens']
    decide
  · exact (drawing_eq_iff hg hg' (by decide) (by decide) ht hu).mp (hdrawing.trans hdrawing'.symm)

end ParseTree

end PredictiveFrontend

import PredictiveFrontend.Proofs.Grammar.Symbols
import PredictiveFrontend.Proofs.Text.Lines

/-!
# Reading the rules of a grammar back

The rules of a grammar that is read from a text are its alternatives, each with its left side. The
grammar depends on nothing else: on which lines the alternatives stand, and which of them share a
line, leaves no trace. So the rules can be written one per line, and the text of these lines is read
as the same grammar.
-/

namespace PredictiveFrontend

/-! ### Lines that start with a capital letter -/

namespace Text

/-- The capital letters lie between the blanks. -/
theorem isBlank_eq_false_of_isUppercase {c : Char} (h : isUppercase c = true) :
    isBlank c = false := by
  have hranges : ∀ r ∈ uppercaseRanges, 0xC0 ≤ r.1 ∧ (r.2 < 0x1680 ∨ 0x1680 < r.1 ∧ r.2 < 0x2000 ∨
      0x205F < r.1 ∧ r.2 < 0x3000 ∨ 0x3000 < r.1) := by decide +kernel
  have hcode : 65 ≤ c.toNat ∧ c.toNat ≤ 90 ∨ 0xC0 ≤ c.toNat ∧ (c.toNat < 0x1680 ∨
      0x1680 < c.toNat ∧ c.toNat < 0x2000 ∨ 0x205F < c.toNat ∧ c.toNat < 0x3000 ∨
      0x3000 < c.toNat) := by
    unfold isUppercase at h
    split at h
    · exact Or.inl (of_decide_eq_true h)
    · obtain ⟨r, hr, hlow, hhigh⟩ := inRanges_iff.mp h
      have hbetween := hranges r hr
      omega
  simp only [isBlank, Bool.or_eq_false_iff, Bool.and_eq_false_iff, decide_eq_false_iff_not,
    beq_eq_false_iff_ne]
  omega

end Text

/-- A line that starts with a capital letter is neither blank nor a remark. -/
theorem Production.isIgnorable_eq_false {c : Char} (h : Text.isUppercase c = true)
    (rest : List Char) : isIgnorable (c :: rest) = false := by
  obtain ⟨more, htrim⟩ := Text.exists_trim_cons (Text.isBlank_eq_false_of_isUppercase h) rest
  have hremark : c ≠ '#' := by
    rintro rfl
    exact absurd h (by decide)
  rw [isIgnorable, htrim]
  simpa using hremark

/-! ### Alternatives -/

namespace Branch

/-- The names of an alternative, its left side first. -/
def names (b : Branch) : List String :=
  b.1 :: b.2

/-- An alternative on a line of its own. -/
def line (b : Branch) : String :=
  b.1 ++ " -> " ++ String.intercalate " " b.2

/-- The production of an alternative that has a line of its own. -/
def production (b : Branch) (line : Nat) : Production :=
  ⟨line, b.1, [b.2]⟩

/-- An alternative that can stand on a line of its own. -/
structure IsWritable (b : Branch) : Prop where
  /-- The names can be written. -/
  isName : ∀ name ∈ b.names, IsName name
  /-- The alternative is not empty. -/
  ne_nil : b.2 ≠ []
  /-- The left side is expanded by rules. -/
  lhs_nonterminal : SymbolKind.ofName b.1 = .nonterminal
  /-- The end of input is not mentioned. -/
  not_reserved : ∀ name ∈ b.names, SymbolName.isReserved name = false

theorem IsWritable.ofLine_line {b : Branch} (hb : b.IsWritable) :
    LineToken.ofLine b.line.toList = .name b.1 :: .arrow :: b.2.map .name := by
  have hrun : ∀ c ∈ ['-', '>'], LineToken.isNameCharacter c = true := by
    intro c hc
    rcases List.mem_pair.mp hc with rfl | rfl
    · rfl
    · rfl
  have harrow : LineToken.ofLine (['-', '>'] ++ ' ' :: (String.intercalate " " b.2).toList) =
      .arrow :: LineToken.ofLine (' ' :: (String.intercalate " " b.2).toList) :=
    LineToken.ofLine_append_run (List.cons_ne_nil _ _) hrun rfl
  have hnames := List.forall_mem_cons.mp hb.isName
  have hchars : b.line.toList =
      b.1.toList ++ ' ' :: (['-', '>'] ++ ' ' :: (String.intercalate " " b.2).toList) := by
    rw [line, String.toList_append, String.toList_append, List.append_assoc]
    rfl
  rw [hchars, LineToken.ofLine_append_name hnames.1 rfl, LineToken.ofLine_blank, harrow,
    LineToken.ofLine_blank, LineToken.ofLine_intercalate hnames.2]

/-- An alternative on a line of its own is read back. -/
theorem IsWritable.ofLine {b : Branch} (hb : b.IsWritable) (number : Nat) :
    Production.ofLine number b.line.toList = .ok (b.production number) := by
  apply Production.ofTokens_eq_ok.mpr
  refine ⟨rfl, List.cons_ne_nil _ _, ?_, ?_⟩
  · rw [production, List.mem_singleton]
    exact hb.ne_nil.symm
  · rw [hb.ofLine_line, production, Production.piecesOf_singleton]

theorem IsWritable.check {b : Branch} (hb : b.IsWritable) (number : Nat) :
    (b.production number).check = .ok (b.production number) := by
  have hreserved := List.forall_mem_cons.mp hb.not_reserved
  apply Production.check_eq_ok.mpr
  refine ⟨rfl, hreserved.1, hb.lhs_nonterminal, ?_⟩
  rw [Production.rightNames, production, List.flatten_singleton]
  exact hreserved.2

theorem IsWritable.isIgnorable {b : Branch} (hb : b.IsWritable) :
    Production.isIgnorable b.line.toList = false := by
  obtain ⟨-, -, hcapital⟩ := SymbolKind.ofName_eq_nonterminal.mp hb.lhs_nonterminal
  rw [line, String.append_assoc, String.toList_append]
  cases hlhs : b.1.toList with
  | nil =>
    rw [hlhs] at hcapital
    cases hcapital
  | cons c rest =>
    rw [hlhs] at hcapital
    exact Production.isIgnorable_eq_false hcapital _

theorem IsWritable.line_ne_nil {b : Branch} (hb : b.IsWritable) : b.line.toList ≠ [] := by
  intro hnil
  have hread := hb.ofLine_line
  rw [hnil, LineToken.ofLine] at hread
  cases hread

theorem IsWritable.lineFeed_not_mem {b : Branch} (hb : b.IsWritable) : '\n' ∉ b.line.toList := by
  intro hfeed
  have hmem := LineToken.lineFeed_mem_ofLine hfeed
  rw [hb.ofLine_line] at hmem
  simp at hmem

end Branch

/-! ### What a grammar depends on -/

namespace Alphabet

theorem internAll_append (a : Alphabet) (names more : List String) :
    a.internAll (names ++ more) = (a.internAll names).internAll more :=
  List.foldl_append

/-- A left side that is there already can be repeated. -/
theorem internAll_repeated {a : Alphabet} {lhs : String} (h : lhs ∈ a.names)
    (alternatives : List (List String)) :
    a.internAll (alternatives.flatMap fun names => lhs :: names) =
      a.internAll alternatives.flatten := by
  induction alternatives generalizing a with
  | nil => rfl
  | cons names alternatives ih =>
    have hhead : a.internAll (lhs :: names) = a.internAll names := by
      rw [internAll, List.foldl_cons, intern, if_pos h, internAll]
    have hmem : lhs ∈ (a.internAll names).names := mem_names_internAll.mpr (Or.inl h)
    rw [List.flatMap_cons, List.flatten_cons, internAll_append, internAll_append, hhead, ih hmem]

end Alphabet

namespace Grammar

/-- The rules of a grammar are alternatives, and all else follows from them: the symbols are their
names, the start symbol is the first left side, and the nonterminals in them are left sides. -/
structure HasBranches (g : Grammar) (bs : List Branch) : Prop where
  alphabet : g.alphabet = Alphabet.base.internAll (bs.flatMap Branch.names)
  rules : g.rules = bs.zipIdx.map fun entry =>
    ⟨entry.2, g.alphabet.code entry.1.1, entry.1.2.map g.alphabet.code⟩
  start : (bs.head?.map Prod.fst).map g.alphabet.code = some g.start
  defined : ∀ b ∈ bs, ∀ name ∈ b.2, SymbolKind.ofName name = .nonterminal →
    ∃ b' ∈ bs, b'.1 = name

/-- The alternative that a rule is. -/
def branch (g : Grammar) (r : Rule) : Branch :=
  (g.alphabet.name r.lhs, r.rhs.map g.alphabet.name)

/-- The right sides of productions are those of their alternatives. -/
theorem forall_mem_rightNames {ps : List Production} {P : String → Prop} :
    (∀ p ∈ ps, ∀ name ∈ p.rightNames, P name) ↔ ∀ b ∈ branches ps, ∀ name ∈ b.2, P name := by
  simp only [mem_branches, Production.rightNames, List.mem_flatten]
  constructor
  · rintro h b ⟨p, hp, -, hnames⟩ name hname
    exact h p hp name ⟨b.2, hnames, hname⟩
  · rintro h p hp name ⟨names, hnames, hname⟩
    exact h (p.lhs, names) ⟨p, hp, rfl, hnames⟩ name hname

section

variable {ps : List Production} (hps : ∀ p ∈ ps, p.alternatives ≠ [])
include hps

/-- A left side that several alternatives share is seen once. -/
theorem internAll_flatMap_names (a : Alphabet) :
    a.internAll (ps.flatMap Production.names) =
      a.internAll ((branches ps).flatMap Branch.names) := by
  induction ps generalizing a with
  | nil => rfl
  | cons p ps ih =>
    rw [List.forall_mem_cons] at hps
    obtain ⟨first, others, halternatives⟩ := List.exists_cons_of_ne_nil hps.1
    have hmem : p.lhs ∈ (a.internAll (p.lhs :: first)).names :=
      Alphabet.mem_names_internAll.mpr (Or.inr (List.mem_cons_self ..))
    have hshared : a.internAll p.names =
        a.internAll (p.alternatives.flatMap fun names => p.lhs :: names) := by
      rw [Production.names, Production.rightNames, halternatives, List.flatten_cons,
        List.flatMap_cons, ← List.cons_append, Alphabet.internAll_append,
        Alphabet.internAll_append, Alphabet.internAll_repeated hmem]
    have hsplit : (branches (p :: ps)).flatMap Branch.names =
        (p.alternatives.flatMap fun names => p.lhs :: names) ++
          (branches ps).flatMap Branch.names := by
      rw [branches, List.flatMap_cons, List.flatMap_append, List.flatMap_map]
      rfl
    rw [List.flatMap_cons, hsplit, Alphabet.internAll_append, Alphabet.internAll_append, hshared,
      ih hps.2]

/-- The left sides of productions are those of their alternatives. -/
theorem exists_lhs_iff {name : String} :
    (∃ p ∈ ps, p.lhs = name) ↔ ∃ b ∈ branches ps, b.1 = name := by
  constructor
  · rintro ⟨p, hp, rfl⟩
    obtain ⟨names, hnames⟩ := List.exists_mem_of_ne_nil _ (hps p hp)
    exact ⟨(p.lhs, names), mem_branches.mpr ⟨p, hp, rfl, hnames⟩, rfl⟩
  · rintro ⟨b, hb, rfl⟩
    obtain ⟨p, hp, hlhs, -⟩ := mem_branches.mp hb
    exact ⟨p, hp, hlhs.symm⟩

/-- The first production holds the first alternative. -/
theorem head?_branches : (branches ps).head?.map Prod.fst = ps.head?.map Production.lhs := by
  cases ps with
  | nil => rfl
  | cons p ps =>
    obtain ⟨first, others, halternatives⟩ :=
      List.exists_cons_of_ne_nil (hps p (List.mem_cons_self ..))
    rw [branches, List.flatMap_cons, halternatives]
    rfl

/-- Productions give the grammar that their alternatives determine. -/
theorem ofProductions_eq_ok_iff_hasBranches {g : Grammar} :
    ofProductions ps = .ok g ↔ g.HasBranches (branches ps) := by
  have hdefined : firstUndefined? ps = none ↔ ∀ b ∈ branches ps, ∀ name ∈ b.2,
      SymbolKind.ofName name = .nonterminal → ∃ b' ∈ branches ps, b'.1 = name := by
    simp only [firstUndefined?_eq_none, exists_lhs_iff hps, forall_mem_rightNames]
  rw [ofProductions_eq_ok]
  constructor
  · rintro ⟨first, others, rfl, hundefined, rfl⟩
    refine ⟨internAll_flatMap_names hps _, rfl, ?_, hdefined.mp hundefined⟩
    rw [head?_branches hps]
    rfl
  · intro h
    cases ps with
    | nil => cases h.start
    | cons first others =>
      refine ⟨first, others, rfl, hdefined.mpr h.defined, ?_⟩
      have halphabet : g.alphabet = alphabetOf (first :: others) :=
        h.alphabet.trans (internAll_flatMap_names hps _).symm
      have hrules : g.rules = rulesOf (alphabetOf (first :: others)) (first :: others) := by
        rw [h.rules, halphabet]
        rfl
      have hstart : (alphabetOf (first :: others)).code first.lhs = g.start := by
        have hhead := h.start
        rw [head?_branches hps, halphabet] at hhead
        exact Option.some.inj hhead
      rw [← hrules, hstart, ← halphabet]

end

/-! ### Writing rules and reading them -/

/-- The rules of a grammar are the alternatives. -/
theorem HasBranches.map_branch {g : Grammar} {bs : List Branch} (h : g.HasBranches bs) :
    g.rules.map g.branch = bs := by
  have hname : ∀ b ∈ bs, ∀ name ∈ b.names, g.alphabet.name (g.alphabet.code name) = name := by
    intro b hb name hname
    apply Alphabet.name_code
    rw [h.alphabet]
    exact Alphabet.mem_names_internAll.mpr (Or.inr (List.mem_flatMap.mpr ⟨b, hb, hname⟩))
  have hbranch : ∀ b ∈ bs, ∀ number,
      g.branch ⟨number, g.alphabet.code b.1, b.2.map g.alphabet.code⟩ = b := by
    intro b hb number
    obtain ⟨hlhs, hrhs⟩ := List.forall_mem_cons.mp (hname b hb)
    have hnames : (b.2.map g.alphabet.code).map g.alphabet.name = b.2 := by
      rw [List.map_map]
      exact (List.map_congr_left hrhs).trans (List.map_id _)
    rw [branch, hlhs, hnames]
  rw [h.rules, List.map_map]
  have hentries : bs.zipIdx.map Prod.fst = bs := List.zipIdx_map_fst 0 bs
  refine (List.map_congr_left ?_).trans hentries
  rintro ⟨b, number⟩ hentry
  exact hbranch b (List.fst_mem_of_mem_zipIdx hentry) number

/-- A grammar writes its rules as the alternatives that they are. -/
theorem HasBranches.map_production {g : Grammar} {bs : List Branch} (h : g.HasBranches bs) :
    g.rules.map (fun r => r.production g.alphabet) = bs.map Branch.line := by
  rw [← h.map_branch, List.map_map]
  rfl

/-- The productions of alternatives, each on a line of its own. -/
def onLines (bs : List Branch) : List Production :=
  bs.zipIdx.map fun entry => entry.1.production (entry.2 + 1)

theorem branches_onLines (bs : List Branch) : branches (onLines bs) = bs := by
  have hsingle : branches (onLines bs) = bs.zipIdx.flatMap fun entry => [entry.1] := by
    rw [branches, onLines, List.flatMap_map]
    rfl
  rw [hsingle, ← List.map_eq_flatMap, List.zipIdx_map_fst]

/-- Alternatives on lines of their own are read. -/
theorem readProductions_onLines {bs : List Branch} (h : ∀ b ∈ bs, b.IsWritable) {text : String}
    (htext : Text.lines text.toList = bs.map fun b => b.line.toList) :
    readProductions (numberedLines text) = .ok (onLines bs) := by
  have hlines : numberedLines text =
      bs.zipIdx.map fun entry => (entry.2 + 1, entry.1.line.toList) := by
    rw [numberedLines, htext, List.zipIdx_map, List.map_map]
    rfl
  have hheld : productionLines (numberedLines text) = numberedLines text := by
    apply List.filter_eq_self.mpr
    rw [hlines, List.forall_mem_map]
    rintro ⟨b, number⟩ hentry
    simp [(h b (List.fst_mem_of_mem_zipIdx hentry)).isIgnorable]
  rw [readProductions_eq_ok, hheld, hlines, onLines, List.forall₂_map_left_iff,
    List.forall₂_map_right_iff, List.forall₂_same]
  rintro ⟨b, number⟩ hentry
  have hb := h b (List.fst_mem_of_mem_zipIdx hentry)
  exact ⟨hb.ofLine (number + 1), hb.check (number + 1)⟩

/-- The alternatives of productions that are read can be written. -/
theorem isWritable_of_readProductions {ls : List (Nat × List Char)} {ps : List Production}
    (h : readProductions ls = .ok ps) : ∀ b ∈ branches ps, b.IsWritable := by
  intro b hb
  obtain ⟨p, hp, hlhs, hnames⟩ := mem_branches.mp hb
  obtain ⟨l, -, hread, hcheck⟩ := exists_of_forall₂_of_mem (readProductions_eq_ok.mp h) hp
  have hsub : ∀ name ∈ b.names, name ∈ p.names := by
    intro name hname
    rcases List.mem_cons.mp hname with rfl | hname
    · exact List.mem_cons.mpr (Or.inl hlhs)
    · exact List.mem_cons_of_mem _ (List.mem_flatten.mpr ⟨b.2, hnames, hname⟩)
  constructor
  case isName => exact fun name hname => Production.isName_of_ofLine hread name (hsub name hname)
  case ne_nil =>
    intro hnil
    rw [hnil] at hnames
    exact (Production.ofTokens_eq_ok.mp hread).2.2.1 hnames
  case lhs_nonterminal =>
    rw [hlhs]
    exact (Production.check_eq_ok.mp hcheck).2.2.1
  case not_reserved =>
    exact fun name hname => Production.not_reserved_of_check hcheck name (hsub name hname)

/-- Alternatives that can be written are the lines of the text that joins them, whether or not the
last line is ended. -/
theorem lines_of_isWritable {bs : List Branch} (hne : bs ≠ []) (h : ∀ b ∈ bs, b.IsWritable)
    {ending : String} (hending : ending ∈ ["", "\n"]) :
    Text.lines (String.intercalate "\n" (bs.map Branch.line) ++ ending).toList =
      bs.map fun b => b.line.toList := by
  have hend : ending.toList = [] ∨ ending.toList = ['\n'] := by
    rcases List.mem_pair.mp hending with rfl | rfl
    · exact Or.inl rfl
    · exact Or.inr rfl
  rw [String.toList_append, String.toList_intercalate, List.map_map]
  apply Text.lines_intercalate_append _ _ _ hend
  · exact fun hnil => hne (List.map_eq_nil_iff.mp hnil)
  · exact List.forall_mem_map.mpr fun b hb => (h b hb).line_ne_nil
  · exact List.forall_mem_map.mpr fun b hb => (h b hb).lineFeed_not_mem

/-- The text of the alternatives of a grammar is read as this grammar. -/
theorem HasBranches.ofText_lines {g : Grammar} {bs : List Branch} (h : g.HasBranches bs)
    (hwritable : ∀ b ∈ bs, b.IsWritable) {ending : String} (hending : ending ∈ ["", "\n"]) :
    ofText (String.intercalate "\n" (bs.map Branch.line) ++ ending) = .ok g := by
  have hne : bs ≠ [] := by
    rintro rfl
    cases h.start
  have hlines := lines_of_isWritable hne hwritable hending
  have hreload : ofProductions (onLines bs) = .ok g := by
    apply (ofProductions_eq_ok_iff_hasBranches ?_).mpr
    · rw [branches_onLines]
      exact h
    · rw [onLines, List.forall_mem_map]
      exact fun entry _ => List.cons_ne_nil _ _
  rw [ofText, bind_eq_ok]
  exact ⟨onLines bs, readProductions_onLines hwritable hlines, hreload⟩

/-- A grammar that is read from a text has the alternatives of its productions. -/
theorem ofText_eq_ok_iff {text : String} {g : Grammar} : ofText text = .ok g ↔
    ∃ ps, readProductions (numberedLines text) = .ok ps ∧ g.HasBranches (branches ps) := by
  rw [ofText, bind_eq_ok]
  constructor
  · rintro ⟨ps, hps, hg⟩
    exact ⟨ps, hps, (ofProductions_eq_ok_iff_hasBranches fun p hp =>
      (wellFormed_of_readProductions hps p hp).alternatives_ne_nil).mp hg⟩
  · rintro ⟨ps, hps, hg⟩
    exact ⟨ps, hps, (ofProductions_eq_ok_iff_hasBranches fun p hp =>
      (wellFormed_of_readProductions hps p hp).alternatives_ne_nil).mpr hg⟩

/-- The rules of a grammar that is read from a text are alternatives that can be written. -/
theorem exists_hasBranches {text : String} {g : Grammar} (h : ofText text = .ok g) :
    ∃ bs, g.HasBranches bs ∧ ∀ b ∈ bs, b.IsWritable := by
  obtain ⟨ps, hps, hbranches⟩ := ofText_eq_ok_iff.mp h
  exact ⟨branches ps, hbranches, isWritable_of_readProductions hps⟩

/-- The rules of a grammar, written one per line, are read as the same grammar, whether or not the
last line is ended. -/
theorem rules_reload {text : String} {g : Grammar} (h : ofText text = .ok g) :
    ∀ ending ∈ ["", "\n"],
      ofText (String.intercalate "\n" (g.rules.map fun r => r.production g.alphabet) ++ ending) =
        .ok g := by
  obtain ⟨bs, hbranches, hwritable⟩ := exists_hasBranches h
  intro ending hending
  rw [hbranches.map_production]
  exact hbranches.ofText_lines hwritable hending

/-- A text whose alternatives share lines. One name starts with the sign of a remark, another one
with an arrow, and a third one holds a blank that ends no name. -/
def sharedLinesText : String :=
  "Über -> #x Über | EPSILON\r\n\n# end\n  Zahl ->\t->x|Über a\u00A0b\n"

/-- The grammar of the text, of which every alternative is a rule. -/
def sharedLines : Grammar :=
  ⟨⟨["EPSILON", "$", "Über", "#x", "Zahl", "->x", "a\u00A0b"]⟩,
    [⟨0, 2, [3, 2]⟩, ⟨1, 2, [0]⟩, ⟨2, 4, [5]⟩, ⟨3, 4, [2, 6]⟩], 2⟩

theorem rules_reload_sharedLines :
    ofText sharedLinesText = .ok sharedLines ∧
      ofText "Über -> #x Über\nÜber -> EPSILON\nZahl -> ->x\nZahl -> Über a\u00A0b\n" =
        .ok sharedLines := by
  have h : ofText sharedLinesText = .ok sharedLines := by decide +kernel
  have htext : String.intercalate "\n" (sharedLines.rules.map fun r =>
      r.production sharedLines.alphabet) ++ "\n" =
        "Über -> #x Über\nÜber -> EPSILON\nZahl -> ->x\nZahl -> Über a\u00A0b\n" := by
    decide +kernel
  refine ⟨h, ?_⟩
  rw [← htext]
  exact rules_reload h "\n" (by simp)

end Grammar

end PredictiveFrontend

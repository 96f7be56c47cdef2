import PredictiveFrontend.Proofs.Grammar.LineFormat
import PredictiveFrontend.Proofs.Grammar.WellFormed
import PredictiveFrontend.Proofs.Text.LineNumber

/-!
# Texts that are grammars

A text is read as a grammar exactly if a production stands on each of its lines that is neither
blank nor a remark, there is such a line, and every nonterminal on a right side has a production,
before or behind its use. A text that is refused is refused for its first faulty line; if there is
none, for having no production; and otherwise for its first use of a nonterminal without one.
-/

namespace PredictiveFrontend

/-! ### The carriage return of an ending -/

namespace LineToken

/-- A carriage return at the end of a line is spacing. -/
theorem ofLine_append_return (line : List Char) : ofLine (line ++ ['\r']) = ofLine line := by
  fun_induction ofLine line with
  | case1 => rw [List.nil_append, ofLine_spacing (by decide), ofLine]
  | case2 c rest hc ih =>
    have hrun : ∀ d ∈ c :: rest.takeWhile isNameCharacter, isNameCharacter d = true :=
      List.forall_mem_cons.mpr ⟨hc, fun d hd => List.mem_takeWhile_imp hd⟩
    have hend : (rest.dropWhile isNameCharacter ++ ['\r']).head?.any isNameCharacter = false := by
      cases hdrop : rest.dropWhile isNameCharacter with
      | nil => rfl
      | cons d others => simpa [hdrop] using any_head?_dropWhile isNameCharacter rest
    have hline := ofLine_append_run (List.cons_ne_nil _ _) hrun hend
    rwa [← List.append_assoc, List.cons_append, List.takeWhile_append_dropWhile, ih] at hline
  | case3 rest hc ih => rw [List.cons_append, ofLine, if_neg hc, if_pos rfl, ih]
  | case4 rest hc hpipe ih =>
    rw [List.cons_append, ofLine, if_neg hc, if_neg hpipe, if_pos rfl, ih]
  | case5 c rest hc hpipe hfeed ih =>
    rw [List.cons_append, ofLine, if_neg hc, if_neg hpipe, if_neg hfeed, ih]

end LineToken

namespace Production

variable {line raw : List Char} {number : Nat}

theorem ofLine_of_isLeftOf (h : Text.IsLeftOf line raw) (number : Nat) :
    ofLine number raw = ofLine number line := by
  rcases h with rfl | rfl
  · rfl
  · rw [ofLine, LineToken.ofLine_append_return, ofLine]

/-- A line is blank or a remark as its first character that is not blank tells. -/
theorem isIgnorable_eq (text : List Char) :
    isIgnorable text = (text.dropWhile Text.isBlank).head?.all (· == '#') := by
  rw [isIgnorable, Text.trim]
  cases htext : text.dropWhile Text.isBlank with
  | nil => rfl
  | cons c rest =>
    have hc : Text.isBlank c = false := by
      have hhead := LineToken.any_head?_dropWhile Text.isBlank text
      rwa [htext] at hhead
    obtain ⟨more, htrim⟩ := Text.exists_trim_cons hc rest
    rw [Text.trim, List.dropWhile_cons_of_neg (by simp [hc])] at htrim
    rw [htrim]
    rfl

theorem isIgnorable_of_isLeftOf (h : Text.IsLeftOf line raw) :
    isIgnorable raw = isIgnorable line := by
  rcases h with rfl | rfl
  · rfl
  · rw [isIgnorable_eq, isIgnorable_eq, List.dropWhile_append]
    split
    · next hblank => simp [List.isEmpty_iff.mp hblank, Text.isBlank]
    · next hblank =>
      obtain ⟨c, rest, hrest⟩ :=
        List.exists_cons_of_ne_nil (mt List.isEmpty_iff.mpr hblank)
      rw [hrest]
      rfl

/-! ### Lines -/

/-- A production that is read from a line and may stand there. -/
structure StandsOn (p : Production) (number : Nat) (line : List Char) : Prop where
  read : ofLine number line = .ok p
  lhs_not_reserved : SymbolName.isReserved p.lhs = false
  lhs_nonterminal : SymbolKind.ofName p.lhs = .nonterminal
  right_not_reserved : ∀ name ∈ p.rightNames, SymbolName.isReserved name = false

/-- What a line is refused for: a fault of its pieces, or else its left side, or else the first
reserved name on its right side. -/
inductive Refused (number : Nat) (line : List Char) : GrammarError → Prop where
  | fault {tokens : List LineToken} {e : GrammarError} (hcuts : LineToken.Cuts line tokens)
    (hfault : Fault number tokens e) : Refused number line e
  | reservedLeft {p : Production} (hread : ofLine number line = .ok p)
    (hlhs : SymbolName.isReserved p.lhs = true) : Refused number line (.reservedName number p.lhs)
  | notNonterminal {p : Production} (hread : ofLine number line = .ok p)
    (hlhs : SymbolName.isReserved p.lhs = false) (hkind : SymbolKind.ofName p.lhs ≠ .nonterminal) :
    Refused number line (.notNonterminal number p.lhs)
  | reservedRight {p : Production} {before after : List String} {name : String}
    (hread : ofLine number line = .ok p) (hlhs : SymbolName.isReserved p.lhs = false)
    (hkind : SymbolKind.ofName p.lhs = .nonterminal)
    (hright : p.rightNames = before ++ name :: after)
    (hbefore : ∀ other ∈ before, SymbolName.isReserved other = false)
    (hname : SymbolName.isReserved name = true) : Refused number line (.reservedName number name)

/-- A line is blamed by its number. -/
theorem Refused.line?_eq {e : GrammarError} (h : Refused number line e) :
    e.line? = some number := by
  cases h with
  | fault _ hfault => cases hfault <;> rfl
  | reservedLeft | notNonterminal | reservedRight => rfl

theorem line_of_ofLine {p : Production} (h : ofLine number line = .ok p) : p.line = number :=
  (ofTokens_eq_ok.mp h).1

theorem standsOn_iff {p : Production} :
    p.StandsOn number line ↔ ofLine number line = .ok p ∧ p.check = .ok p := by
  constructor
  · intro h
    exact ⟨h.read, check_eq_ok.mpr
      ⟨rfl, h.lhs_not_reserved, h.lhs_nonterminal, h.right_not_reserved⟩⟩
  · rintro ⟨hread, hcheck⟩
    obtain ⟨-, hlhs, hkind, hright⟩ := check_eq_ok.mp hcheck
    exact ⟨hread, hlhs, hkind, hright⟩

/-- A production that is refused is refused for its left side, or else for the first reserved name
on its right side. -/
theorem check_eq_error {p : Production} {e : GrammarError} : p.check = .error e ↔
    (SymbolName.isReserved p.lhs = true ∧ e = .reservedName p.line p.lhs) ∨
    (SymbolName.isReserved p.lhs = false ∧ SymbolKind.ofName p.lhs ≠ .nonterminal ∧
      e = .notNonterminal p.line p.lhs) ∨
    (SymbolName.isReserved p.lhs = false ∧ SymbolKind.ofName p.lhs = .nonterminal ∧
      ∃ before name after, p.rightNames = before ++ name :: after ∧
        (∀ other ∈ before, SymbolName.isReserved other = false) ∧
        SymbolName.isReserved name = true ∧ e = .reservedName p.line name) := by
  unfold check
  cases hlhs : SymbolName.isReserved p.lhs with
  | true =>
    simp only [if_true, true_and, Bool.true_eq_false, false_and, or_false, Except.error.injEq]
    exact eq_comm
  | false =>
    by_cases hkind : SymbolKind.ofName p.lhs = .nonterminal
    · simp only [hkind, Bool.false_eq_true, if_false, ne_eq, not_true_eq_false, false_and,
        false_or, true_and]
      cases hfind : p.rightNames.find? SymbolName.isReserved with
      | none =>
        have hnone := List.find?_eq_none.mp hfind
        constructor
        · rintro ⟨⟩
        · rintro ⟨before, name, after, hright, -, hname, -⟩
          exact absurd hname (hnone name (by simp [hright]))
      | some name =>
        constructor
        · rintro ⟨⟩
          obtain ⟨hname, before, after, hright, hbefore⟩ := List.find?_eq_some_iff_append.mp hfind
          exact ⟨before, name, after, hright, by simpa using hbefore, hname, rfl⟩
        · rintro ⟨before, other, after, hright, hbefore, hother, rfl⟩
          have hfirst : p.rightNames.find? SymbolName.isReserved = some other :=
            List.find?_eq_some_iff_append.mpr
              ⟨hother, before, after, hright, by simpa using hbefore⟩
          obtain rfl := Option.some.inj (hfind.symm.trans hfirst)
          rfl
    · simp only [hkind, Bool.false_eq_true, if_false, ne_eq, not_false_eq_true, if_true, false_and,
        false_or, or_false, true_and, Except.error.injEq]
      exact eq_comm

/-- A line is refused by the reader or by the checks. -/
theorem refused_iff {e : GrammarError} : Refused number line e ↔
    ofLine number line = .error e ∨ ∃ p, ofLine number line = .ok p ∧ p.check = .error e := by
  constructor
  · intro h
    cases h with
    | fault hcuts hfault =>
      rw [LineToken.cuts_iff.mp hcuts] at hfault
      exact .inl (ofTokens_eq_error.mpr hfault)
    | @reservedLeft p hread hlhs =>
      refine .inr ⟨p, hread, check_eq_error.mpr (.inl ⟨hlhs, ?_⟩)⟩
      rw [line_of_ofLine hread]
    | @notNonterminal p hread hlhs hkind =>
      refine .inr ⟨p, hread, check_eq_error.mpr (.inr (.inl ⟨hlhs, hkind, ?_⟩))⟩
      rw [line_of_ofLine hread]
    | @reservedRight p before after name hread hlhs hkind hright hbefore hname =>
      refine .inr ⟨p, hread, check_eq_error.mpr (.inr (.inr
        ⟨hlhs, hkind, before, name, after, hright, hbefore, hname, ?_⟩))⟩
      rw [line_of_ofLine hread]
  · rintro (hread | ⟨p, hread, hcheck⟩)
    · exact .fault (LineToken.cuts_iff.mpr rfl) (ofTokens_eq_error.mp hread)
    · obtain rfl := line_of_ofLine hread
      rcases check_eq_error.mp hcheck with ⟨hlhs, rfl⟩ | ⟨hlhs, hkind, rfl⟩ |
        ⟨hlhs, hkind, before, name, after, hright, hbefore, hname, rfl⟩
      · exact .reservedLeft hread hlhs
      · exact .notNonterminal hread hlhs hkind
      · exact .reservedRight hread hlhs hkind hright hbefore hname

/-- A production stands on a line, or the line is refused. -/
theorem exists_standsOn_or_refused (number : Nat) (line : List Char) :
    (∃ p : Production, p.StandsOn number line) ∨ ∃ e, Refused number line e := by
  cases hread : ofLine number line with
  | error e => exact .inr ⟨e, refused_iff.mpr (.inl hread)⟩
  | ok p =>
    cases hcheck : p.check with
    | error e => exact .inr ⟨e, refused_iff.mpr (.inr ⟨p, hread, hcheck⟩)⟩
    | ok q =>
      obtain rfl := (check_eq_ok.mp hcheck).1
      exact .inl ⟨q, standsOn_iff.mpr ⟨hread, hcheck⟩⟩

/-- No production stands on a line that is refused. -/
theorem Refused.not_standsOn {e : GrammarError} (h : Refused number line e) (p : Production) :
    ¬p.StandsOn number line := by
  intro hstands
  obtain ⟨hread, hcheck⟩ := standsOn_iff.mp hstands
  rcases refused_iff.mp h with herror | ⟨q, hq, herror⟩
  · rw [hread] at herror
    cases herror
  · obtain rfl := Except.ok.inj (hread.symm.trans hq)
    rw [hcheck] at herror
    cases herror

/-- The carriage return of an ending does not change what stands on a line. -/
theorem standsOn_of_isLeftOf (h : Text.IsLeftOf line raw) {p : Production} :
    p.StandsOn number raw ↔ p.StandsOn number line := by
  rw [standsOn_iff, standsOn_iff, ofLine_of_isLeftOf h]

theorem refused_of_isLeftOf (h : Text.IsLeftOf line raw) {e : GrammarError} :
    Refused number raw e ↔ Refused number line e := by
  rw [refused_iff, refused_iff, ofLine_of_isLeftOf h]

end Production

/-! ### Texts -/

namespace Grammar

open Production (StandsOn Refused)

/-- A line that is not blank and no remark, by its number. -/
def IsProductionLine (text : String) (number : Nat) (line : List Char) : Prop :=
  Text.LineAt text.toList number line ∧ Production.isIgnorable line = false

/-- A production stands on the line of a number. -/
def Holds (text : String) (number : Nat) (p : Production) : Prop :=
  ∃ line, IsProductionLine text number line ∧ p.StandsOn number line

/-- A name is the left side of some line. -/
def Defines (text : String) (name : String) : Prop :=
  ∃ number p, Holds text number p ∧ p.lhs = name

/-- A name that is not a nonterminal or has a production. -/
def IsSettled (text : String) (name : String) : Prop :=
  SymbolKind.ofName name = .nonterminal → Defines text name

/-- The format of grammars. -/
structure IsGrammarText (text : String) : Prop where
  productions : ∀ number line, IsProductionLine text number line →
    ∃ p : Production, p.StandsOn number line
  nonempty : ∃ number line, IsProductionLine text number line
  defined : ∀ number p, Holds text number p → ∀ name ∈ p.rightNames, IsSettled text name

/-- Why a text is no grammar. -/
inductive Refusal (text : String) : GrammarError → Prop where
  /-- There is a faulty line, and this is the first one. -/
  | faultyLine {number : Nat} {line : List Char} {e : GrammarError}
    (hline : IsProductionLine text number line) (herror : Refused number line e)
    (hnumber : e.line? = some number)
    (hfirst : ∀ earlier < number, ∀ other, IsProductionLine text earlier other →
      ∃ p : Production, p.StandsOn earlier other) : Refusal text e
  /-- There is no line for a production. -/
  | noRules (hline : ∀ number line, ¬IsProductionLine text number line) : Refusal text .noRules
  /-- All lines are productions, and this is the first use of a nonterminal without one. -/
  | undefinedNonterminal {number : Nat} {p : Production} {before after : List String}
    {name : String}
    (hlines : ∀ number line, IsProductionLine text number line →
      ∃ p : Production, p.StandsOn number line)
    (hp : Holds text number p) (hright : p.rightNames = before ++ name :: after)
    (hname : ¬IsSettled text name) (hbefore : ∀ other ∈ before, IsSettled text other)
    (hfirst : ∀ earlier < number, ∀ q, Holds text earlier q →
      ∀ other ∈ q.rightNames, IsSettled text other) :
    Refusal text (.undefinedNonterminal number name)

variable {text : String}

theorem mem_numberedLines {number : Nat} {raw : List Char} : (number, raw) ∈ numberedLines text ↔
    ∃ i, number = i + 1 ∧ (Text.lines text.toList)[i]? = some raw := by
  simp only [numberedLines, List.mem_map, Prod.exists, List.mem_zipIdx_iff_getElem?, Prod.mk.injEq]
  constructor
  · rintro ⟨_, i, hi, rfl, rfl⟩
    exact ⟨i, rfl, hi⟩
  · rintro ⟨i, rfl, hi⟩
    exact ⟨raw, i, hi, rfl, rfl⟩

/-- Lines are numbered in ascending order. -/
theorem pairwise_productionLines (text : String) :
    (productionLines (numberedLines text)).Pairwise fun l l' => l.1 < l'.1 := by
  apply List.Pairwise.filter
  have hnumbers : ((Text.lines text.toList).zipIdx.map Prod.snd).Pairwise (· < ·) := by
    rw [List.zipIdx_map_snd]
    exact List.pairwise_lt_range'
  rw [List.pairwise_map] at hnumbers
  rw [numberedLines, List.pairwise_map]
  exact hnumbers.imp fun h => Nat.succ_lt_succ h

theorem exists_mem_productionLines {number : Nat} {line : List Char}
    (h : IsProductionLine text number line) :
    ∃ raw, (number, raw) ∈ productionLines (numberedLines text) ∧ Text.IsLeftOf line raw := by
  obtain ⟨hline, hheld⟩ := h
  obtain ⟨i, raw, hnumber, hraw, hleft⟩ := hline.exists_getElem?
  refine ⟨raw, List.mem_filter.mpr ⟨mem_numberedLines.mpr ⟨i, hnumber, hraw⟩, ?_⟩, hleft⟩
  rw [Production.isIgnorable_of_isLeftOf hleft, hheld]
  rfl

theorem exists_isProductionLine {number : Nat} {raw : List Char}
    (h : (number, raw) ∈ productionLines (numberedLines text)) :
    ∃ line, IsProductionLine text number line ∧ Text.IsLeftOf line raw := by
  obtain ⟨hmem, hheld⟩ := List.mem_filter.mp h
  obtain ⟨i, rfl, hraw⟩ := mem_numberedLines.mp hmem
  obtain ⟨line, hline, hleft⟩ := Text.exists_lineAt_of_getElem? hraw
  refine ⟨line, ⟨hline, ?_⟩, hleft⟩
  rw [← Production.isIgnorable_of_isLeftOf hleft]
  simpa using hheld

/-- The productions of a text stand on its lines, one on each that is not skipped. -/
theorem readProductions_eq_ok_iff {ls : List (Nat × List Char)} {ps : List Production} :
    readProductions ls = .ok ps ↔
      List.Forall₂ (fun l p => StandsOn p l.1 l.2) (productionLines ls) ps := by
  simp only [readProductions_eq_ok, Production.standsOn_iff]

/-- Reading productions ends at the first line that is refused. -/
theorem readProductions_eq_error {ls : List (Nat × List Char)} {e : GrammarError} :
    readProductions ls = .error e ↔ ∃ before l after, productionLines ls = before ++ l :: after ∧
      (∀ b ∈ before, ∃ p, StandsOn p b.1 b.2) ∧ Refused l.1 l.2 e := by
  induction ls with
  | nil => simp [readProductions, productionLines]
  | cons l ls ih =>
    obtain ⟨number, raw⟩ := l
    by_cases hignorable : Production.isIgnorable raw
    · rw [readProductions, if_pos hignorable, ih, productionLines, productionLines,
        List.filter_cons_of_neg (by simpa using hignorable)]
    · rw [readProductions, if_neg hignorable, productionLines,
        List.filter_cons_of_pos (by simpa using hignorable), ← productionLines]
      simp only [bind_eq_error, ih]
      constructor
      · rintro (hread | ⟨p, hread, hcheck | ⟨q, hcheck, hrest | ⟨others, -, hpure⟩⟩⟩)
        · exact ⟨[], _, _, rfl, by simp, Production.refused_iff.mpr (.inl hread)⟩
        · exact ⟨[], _, _, rfl, by simp, Production.refused_iff.mpr (.inr ⟨p, hread, hcheck⟩)⟩
        · obtain rfl := (Production.check_eq_ok.mp hcheck).1
          obtain ⟨before, l, after, hlines, hbefore, hl⟩ := hrest
          refine ⟨(number, raw) :: before, l, after, by rw [hlines]; rfl, ?_, hl⟩
          exact List.forall_mem_cons.mpr
            ⟨⟨q, Production.standsOn_iff.mpr ⟨hread, hcheck⟩⟩, hbefore⟩
        · cases hpure
      · rintro ⟨before, l, after, hlines, hbefore, hl⟩
        cases before with
        | nil =>
          obtain ⟨rfl, -⟩ := List.cons.inj hlines
          rcases Production.refused_iff.mp hl with hread | ⟨p, hread, hcheck⟩
          · exact .inl hread
          · exact .inr ⟨p, hread, .inl hcheck⟩
        | cons first before =>
          rw [List.cons_append, List.cons.injEq] at hlines
          obtain ⟨rfl, hlines⟩ := hlines
          obtain ⟨⟨p, hp⟩, hbefore⟩ := List.forall_mem_cons.mp hbefore
          obtain ⟨hread, hcheck⟩ := Production.standsOn_iff.mp hp
          exact .inr ⟨p, hread, .inr ⟨p, hcheck, .inl ⟨before, l, after, hlines, hbefore, hl⟩⟩⟩

section

variable {p : Production} {defined : List String} {name : String}

/-- The first reference of a production that is not defined: all others in front of it are. -/
theorem find?_references_eq_some : p.references.find? (· ∉ defined) = some name ↔
    ∃ before after, p.rightNames = before ++ name :: after ∧
      (SymbolKind.ofName name = .nonterminal ∧ name ∉ defined) ∧
      ∀ other ∈ before, SymbolKind.ofName other = .nonterminal → other ∈ defined := by
  simp only [Production.references, List.find?_filter, List.find?_eq_some_iff_append, beq_iff_eq,
    decide_eq_true_eq, Bool.not_eq_true', decide_eq_false_iff_not, not_and, Decidable.not_not]
  constructor
  · rintro ⟨hname, before, after, hright, hbefore⟩
    exact ⟨before, after, hright, hname, hbefore⟩
  · rintro ⟨before, after, hright, hname, hbefore⟩
    exact ⟨hname, before, after, hright, hbefore⟩

theorem find?_references_eq_none : p.references.find? (· ∉ defined) = none ↔
    ∀ other ∈ p.rightNames, SymbolKind.ofName other = .nonterminal → other ∈ defined := by
  simp only [Production.references, List.find?_filter, List.find?_eq_none, beq_iff_eq,
    decide_eq_true_eq, not_and, Decidable.not_not]

end

/-- The first undefined reference: on its line all names in front of it are settled, and so are all
on the lines in front. -/
theorem firstUndefined?_eq_some {ps : List Production} {number : Nat} {name : String} :
    firstUndefined? ps = some (number, name) ↔ ∃ earlier p later, ps = earlier ++ p :: later ∧
      p.line = number ∧ p.references.find? (· ∉ ps.map Production.lhs) = some name ∧
      ∀ q ∈ earlier, q.references.find? (· ∉ ps.map Production.lhs) = none := by
  simp only [firstUndefined?, List.findSome?_eq_some_iff, Option.map_eq_some_iff,
    Option.map_eq_none_iff, Prod.mk.injEq]
  constructor
  · rintro ⟨earlier, p, later, hps, ⟨_, hfind, hline, rfl⟩, hearlier⟩
    exact ⟨earlier, p, later, hps, hline, hfind, hearlier⟩
  · rintro ⟨earlier, p, later, hps, hline, hfind, hearlier⟩
    exact ⟨earlier, p, later, hps, ⟨name, hfind, hline, rfl⟩, hearlier⟩

/-- In a list that ascends by a key, what has a lesser key than an entry stands in front of it. -/
theorem mem_of_lt_of_pairwise {α : Type} {key : α → Nat} {before after : List α} {a b : α}
    (h : (before ++ a :: after).Pairwise fun x y => key x < key y) (hb : b ∈ before ++ a :: after)
    (hlt : key b < key a) : b ∈ before := by
  obtain ⟨-, hafter, -⟩ := List.pairwise_append.mp h
  rcases List.mem_append.mp hb with hb | hb
  · exact hb
  rcases List.mem_cons.mp hb with rfl | hb
  · exact absurd hlt (Nat.lt_irrefl _)
  · exact absurd hlt (Nat.not_lt_of_gt ((List.pairwise_cons.mp hafter).1 b hb))

/-- The lines of productions are those that they are read from. -/
theorem map_line_of_readProductions {ls : List (Nat × List Char)} {ps : List Production}
    (h : readProductions ls = .ok ps) :
    ps.map Production.line = (productionLines ls).map Prod.fst := by
  rw [readProductions_eq_ok_iff] at h
  generalize productionLines ls = held at h
  induction h with
  | nil => rfl
  | cons hstands _ ih =>
    rw [List.map_cons, List.map_cons, ih, Production.line_of_ofLine hstands.read]

section

variable {ps : List Production} (h : readProductions (numberedLines text) = .ok ps)
include h

/-- The productions that are read from a text are those that stand on its lines. -/
theorem holds_iff {number : Nat} {p : Production} :
    Holds text number p ↔ p ∈ ps ∧ p.line = number := by
  have hread := readProductions_eq_ok_iff.mp h
  constructor
  · rintro ⟨line, hline, hp⟩
    obtain ⟨raw, hraw, hleft⟩ := exists_mem_productionLines hline
    obtain ⟨q, hq, hstands⟩ := exists_of_forall₂_of_mem hread.flip hraw
    have hp' := (Production.standsOn_of_isLeftOf hleft).mpr hp
    obtain rfl := Except.ok.inj (hstands.read.symm.trans hp'.read)
    exact ⟨hq, Production.line_of_ofLine hp.read⟩
  · rintro ⟨hp, rfl⟩
    obtain ⟨⟨number, raw⟩, hraw, hstands⟩ := exists_of_forall₂_of_mem hread hp
    obtain ⟨line, hline, hleft⟩ := exists_isProductionLine hraw
    have hp := (Production.standsOn_of_isLeftOf hleft).mp hstands
    rw [Production.line_of_ofLine hp.read]
    exact ⟨line, hline, hp⟩

theorem pairwise_line : ps.Pairwise fun p q => p.line < q.line := by
  have hnumbers := List.pairwise_map.mpr (pairwise_productionLines text)
  rwa [← map_line_of_readProductions h, List.pairwise_map] at hnumbers

theorem defines_iff {name : String} : Defines text name ↔ name ∈ ps.map Production.lhs := by
  simp only [Defines, holds_iff h, List.mem_map]
  constructor
  · rintro ⟨_, p, ⟨hp, -⟩, hlhs⟩
    exact ⟨p, hp, hlhs⟩
  · rintro ⟨p, hp, hlhs⟩
    exact ⟨p.line, p, ⟨hp, rfl⟩, hlhs⟩

theorem isSettled_iff {name : String} : IsSettled text name ↔
    (SymbolKind.ofName name = .nonterminal → name ∈ ps.map Production.lhs) := by
  rw [IsSettled, defines_iff h]

/-- No line is left for a production exactly if there are no productions. -/
theorem eq_nil_iff : ps = [] ↔ ∀ number line, ¬IsProductionLine text number line := by
  constructor
  · rintro rfl number line hline
    obtain ⟨raw, hraw, -⟩ := exists_mem_productionLines hline
    have hnil := List.forall₂_nil_right_iff.mp (readProductions_eq_ok_iff.mp h)
    rw [hnil] at hraw
    cases hraw
  · intro hlines
    apply List.eq_nil_iff_forall_not_mem.mpr
    intro p hp
    obtain ⟨line, hline, -⟩ := (holds_iff h).mpr ⟨hp, rfl⟩
    exact hlines _ _ hline

/-- The first undefined reference by lines: all lines in front of it, and all names in front of it
on its own line, are settled. -/
theorem firstUndefined?_iff {number : Nat} {name : String} :
    firstUndefined? ps = some (number, name) ↔ ∃ p before after, Holds text number p ∧
      p.rightNames = before ++ name :: after ∧ ¬IsSettled text name ∧
      (∀ other ∈ before, IsSettled text other) ∧
      ∀ earlier < number, ∀ q, Holds text earlier q →
        ∀ other ∈ q.rightNames, IsSettled text other := by
  have hsorted := pairwise_line h
  simp only [firstUndefined?_eq_some, find?_references_eq_some, find?_references_eq_none,
    isSettled_iff h, Classical.not_imp, holds_iff h]
  constructor
  · rintro ⟨earlier, p, later, hps, rfl, ⟨before, after, hright, hname, hbefore⟩, hearlier⟩
    rw [hps] at hsorted
    refine ⟨p, before, after, ⟨by simp [hps], rfl⟩, hright, hname, hbefore, ?_⟩
    rintro _ hlt q ⟨hq, rfl⟩
    exact hearlier q (mem_of_lt_of_pairwise hsorted (hps ▸ hq) hlt)
  · rintro ⟨p, before, after, ⟨hp, rfl⟩, hright, hname, hbefore, hearlier⟩
    obtain ⟨earlier, later, hps⟩ := List.append_of_mem hp
    refine ⟨earlier, p, later, hps, rfl, ⟨before, after, hright, hname, hbefore⟩, ?_⟩
    intro q hq
    rw [hps, List.pairwise_append] at hsorted
    have hlt : q.line < p.line := hsorted.2.2 q hq p (List.mem_cons_self ..)
    exact hearlier _ hlt q ⟨by simp [hps, hq], rfl⟩

end

/-- All lines of a text that is read are productions. -/
theorem exists_readProductions_iff : (∃ ps, readProductions (numberedLines text) = .ok ps) ↔
    ∀ number line, IsProductionLine text number line → ∃ p, StandsOn p number line := by
  constructor
  · rintro ⟨ps, h⟩ number line hline
    obtain ⟨raw, hraw, hleft⟩ := exists_mem_productionLines hline
    obtain ⟨p, -, hp⟩ := exists_of_forall₂_of_mem (readProductions_eq_ok_iff.mp h).flip hraw
    exact ⟨p, (Production.standsOn_of_isLeftOf hleft).mp hp⟩
  · intro hlines
    cases h : readProductions (numberedLines text) with
    | ok ps => exact ⟨ps, rfl⟩
    | error e =>
      obtain ⟨before, ⟨number, raw⟩, after, hsplit, -, hrefused⟩ := readProductions_eq_error.mp h
      have hraw : (number, raw) ∈ productionLines (numberedLines text) := by
        rw [hsplit]
        exact List.mem_append_right _ (List.mem_cons_self ..)
      obtain ⟨line, hline, hleft⟩ := exists_isProductionLine hraw
      obtain ⟨p, hp⟩ := hlines number line hline
      exact absurd hp (((Production.refused_of_isLeftOf hleft).mp hrefused).not_standsOn p)

/-- A text whose lines are not all productions is refused for the first one that is none. -/
theorem readProductions_eq_error_iff {e : GrammarError} :
    readProductions (numberedLines text) = .error e ↔ ∃ number line,
      IsProductionLine text number line ∧ Refused number line e ∧
      ∀ earlier < number, ∀ other, IsProductionLine text earlier other →
        ∃ p, StandsOn p earlier other := by
  have hsorted := pairwise_productionLines text
  rw [readProductions_eq_error]
  constructor
  · rintro ⟨before, ⟨number, raw⟩, after, hsplit, hbefore, hrefused⟩
    rw [hsplit] at hsorted
    have hraw : (number, raw) ∈ productionLines (numberedLines text) := by
      rw [hsplit]
      exact List.mem_append_right _ (List.mem_cons_self ..)
    obtain ⟨line, hline, hleft⟩ := exists_isProductionLine hraw
    refine ⟨number, line, hline, (Production.refused_of_isLeftOf hleft).mp hrefused, ?_⟩
    intro earlier hearlier other hother
    obtain ⟨raw', hraw', hleft'⟩ := exists_mem_productionLines hother
    obtain ⟨p, hp⟩ := hbefore _ (mem_of_lt_of_pairwise hsorted (hsplit ▸ hraw') hearlier)
    exact ⟨p, (Production.standsOn_of_isLeftOf hleft').mp hp⟩
  · rintro ⟨number, line, hline, hrefused, hfirst⟩
    obtain ⟨raw, hraw, hleft⟩ := exists_mem_productionLines hline
    obtain ⟨before, after, hsplit⟩ := List.append_of_mem hraw
    refine ⟨before, (number, raw), after, hsplit, ?_,
      (Production.refused_of_isLeftOf hleft).mpr hrefused⟩
    rintro ⟨earlier, raw'⟩ hraw'
    have hmem : (earlier, raw') ∈ productionLines (numberedLines text) := by
      rw [hsplit]
      exact List.mem_append_left _ hraw'
    obtain ⟨other, hother, hleft'⟩ := exists_isProductionLine hmem
    rw [hsplit, List.pairwise_append] at hsorted
    have hlt : earlier < number := hsorted.2.2 _ hraw' _ (List.mem_cons_self ..)
    obtain ⟨p, hp⟩ := hfirst earlier hlt other hother
    exact ⟨p, (Production.standsOn_of_isLeftOf hleft').mpr hp⟩

/-- Productions give no grammar if there are none, or else for their first undefined reference. -/
theorem ofProductions_eq_error {ps : List Production} {e : GrammarError} :
    ofProductions ps = .error e ↔ (ps = [] ∧ e = .noRules) ∨
      ∃ number name, firstUndefined? ps = some (number, name) ∧
        e = .undefinedNonterminal number name := by
  cases ps with
  | nil => simp [ofProductions, firstUndefined?, eq_comm]
  | cons first others =>
    simp only [ofProductions, List.cons_ne_nil, false_and, false_or]
    cases firstUndefined? (first :: others) with
    | none => simp
    | some use => simp [Prod.ext_iff, eq_comm]

theorem exists_ofText_iff : (∃ g, ofText text = .ok g) ↔ IsGrammarText text := by
  simp only [ofText, bind_eq_ok]
  constructor
  · rintro ⟨g, ps, hps, hg⟩
    obtain ⟨first, others, hcons, hdefined, -⟩ := ofProductions_eq_ok.mp hg
    refine ⟨exists_readProductions_iff.mp ⟨ps, hps⟩, ?_, ?_⟩
    · obtain ⟨line, hline, -⟩ := (holds_iff hps).mpr ⟨hcons ▸ List.mem_cons_self .., rfl⟩
      exact ⟨first.line, line, hline⟩
    · intro number p hp name hname hkind
      obtain ⟨hmem, -⟩ := (holds_iff hps).mp hp
      obtain ⟨q, hq, hlhs⟩ := firstUndefined?_eq_none.mp hdefined p hmem name hname hkind
      exact (defines_iff hps).mpr (List.mem_map.mpr ⟨q, hq, hlhs⟩)
  · rintro ⟨hlines, ⟨number, line, hline⟩, hdefined⟩
    obtain ⟨ps, hps⟩ := exists_readProductions_iff.mpr hlines
    have hne : ps ≠ [] := fun hnil => (eq_nil_iff hps).mp hnil number line hline
    obtain ⟨first, others, hcons⟩ := List.exists_cons_of_ne_nil hne
    refine ⟨_, ps, hps, ofProductions_eq_ok.mpr ⟨first, others, hcons, ?_, rfl⟩⟩
    apply firstUndefined?_eq_none.mpr
    intro p hp name hname hkind
    have hsettled := hdefined p.line p ((holds_iff hps).mpr ⟨hp, rfl⟩) name hname
    exact List.mem_map.mp ((isSettled_iff hps).mp hsettled hkind)

theorem ofText_eq_error_iff {e : GrammarError} : ofText text = .error e ↔ Refusal text e := by
  simp only [ofText, bind_eq_error, ofProductions_eq_error, readProductions_eq_error_iff]
  constructor
  · rintro (⟨number, line, hline, hrefused, hfirst⟩ |
      ⟨ps, hps, ⟨hnil, rfl⟩ | ⟨number, name, hfind, rfl⟩⟩)
    · exact .faultyLine hline hrefused hrefused.line?_eq hfirst
    · exact .noRules ((eq_nil_iff hps).mp hnil)
    · obtain ⟨p, before, after, hp, hright, hname, hbefore, hfirst⟩ :=
        (firstUndefined?_iff hps).mp hfind
      exact .undefinedNonterminal (exists_readProductions_iff.mp ⟨ps, hps⟩) hp hright hname hbefore
        hfirst
  · intro h
    cases h with
    | @faultyLine number line e hline hrefused hnumber hfirst =>
      exact .inl ⟨number, line, hline, hrefused, hfirst⟩
    | noRules hlines =>
      obtain ⟨ps, hps⟩ := exists_readProductions_iff.mpr
        fun number line hline => absurd hline (hlines number line)
      exact .inr ⟨ps, hps, .inl ⟨(eq_nil_iff hps).mpr hlines, rfl⟩⟩
    | @undefinedNonterminal number p before after name hlines hp hright hname hbefore hfirst =>
      obtain ⟨ps, hps⟩ := exists_readProductions_iff.mpr hlines
      exact .inr ⟨ps, hps, .inr ⟨number, name, (firstUndefined?_iff hps).mpr
        ⟨p, before, after, hp, hright, hname, hbefore, hfirst⟩, rfl⟩⟩

/-- A text is read as a grammar exactly if it has the format of one; every other text is refused for
its first faulty line, or else for having no production, or else for the first use of a nonterminal
without one. -/
theorem ofText_exact (text : String) :
    ((∃ g, ofText text = .ok g) ↔ IsGrammarText text) ∧
      ∀ e, ofText text = .error e ↔ Refusal text e :=
  ⟨exists_ofText_iff, fun _ => ofText_eq_error_iff⟩

/-- Remarks, blank lines and both endings of lines are counted. The second production line is the
first that is faulty, though the one in front of it uses a nonterminal without a production. -/
example : ofText "S -> A\r\n# remark\r\n\n$ -> a\n-> b" = .error (.reservedName 4 "$") ∧
    ofText "S -> A\r\n\r\nA -> B S" = .error (.undefinedNonterminal 3 "B") ∧
    ofText "# remark\r\n \n" = .error .noRules := by
  decide +kernel

end Grammar

end PredictiveFrontend

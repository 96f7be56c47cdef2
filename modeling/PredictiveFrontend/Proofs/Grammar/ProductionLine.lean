import PredictiveFrontend.Grammar.Basic
import PredictiveFrontend.Proofs.Result
import Mathlib.Data.List.TakeWhile

/-!
# Production lines and their pieces

The pieces of a line that is read as a production are its left side, an arrow, and the names of the
alternatives with pipes between the alternatives, and every such line is read. The names are those
that can be written: they hold no blank and no pipe, and none of them is an arrow. So names that are
written with blanks between them are read back.
-/

namespace PredictiveFrontend

/-! ### Blanks around a line -/

/-- Trimming keeps the first character of a text that does not start with a blank. -/
theorem Text.exists_trim_cons {c : Char} (h : isBlank c = false) (rest : List Char) :
    ∃ more, trim (c :: rest) = c :: more := by
  have hlast : [c].dropWhile isBlank = [c] := by simp [h]
  rw [trim, List.dropWhile_cons_of_neg (by simp [h]), List.reverse_cons, List.dropWhile_append]
  split
  · exact ⟨[], by rw [hlast, List.reverse_singleton]⟩
  · refine ⟨(rest.reverse.dropWhile isBlank).reverse, ?_⟩
    rw [List.reverse_append, List.reverse_singleton, List.singleton_append]

/-! ### Pieces of a line -/

/-- A name that can be written on a production line. -/
structure IsName (name : String) : Prop where
  ne_empty : name ≠ ""
  isNameCharacter : ∀ c ∈ name.toList, LineToken.isNameCharacter c = true
  /-- The arrow is no name. -/
  ne_arrow : name ≠ "->"

namespace LineToken

/-- The name that a piece is, if it is one. -/
def name? : LineToken → Option String
  | .name n => some n
  | .arrow | .pipe | .lineFeed => none

/-- A run of name characters that another character ends is one piece. -/
theorem ofLine_append_run {run rest : List Char} (hne : run ≠ [])
    (hrun : ∀ c ∈ run, isNameCharacter c = true)
    (hrest : rest.head?.any isNameCharacter = false) :
    ofLine (run ++ rest) = ofRun run :: ofLine rest := by
  obtain ⟨c, more, rfl⟩ := List.exists_cons_of_ne_nil hne
  rw [List.forall_mem_cons] at hrun
  have htake : rest.takeWhile isNameCharacter = [] := by
    cases rest with
    | nil => rfl
    | cons d rest => simpa using hrest
  have hdrop : rest.dropWhile isNameCharacter = rest := by
    cases rest with
    | nil => rfl
    | cons d rest => simpa using hrest
  rw [List.cons_append, ofLine, if_pos hrun.1, List.takeWhile_append_of_pos hrun.2,
    List.dropWhile_append_of_pos hrun.2, htake, hdrop, List.append_nil]

/-- Blanks are skipped. -/
theorem ofLine_blank (rest : List Char) : ofLine (' ' :: rest) = ofLine rest := by
  rw [ofLine, if_neg (by decide), if_neg (by decide), if_neg (by decide)]

theorem ofRun_toList {name : String} (h : name ≠ "->") : ofRun name.toList = .name name := by
  have hne : name.toList ≠ ['-', '>'] := by
    intro harrow
    exact h (String.toList_inj.mp harrow)
  rw [ofRun, if_neg hne, String.ofList_toList]

/-- A name is read back if nothing goes on with it. -/
theorem ofLine_append_name {name : String} (h : IsName name) {rest : List Char}
    (hrest : rest.head?.any isNameCharacter = false) :
    ofLine (name.toList ++ rest) = .name name :: ofLine rest := by
  rw [ofLine_append_run (by simpa using h.ne_empty) h.isNameCharacter hrest,
    ofRun_toList h.ne_arrow]

/-- Names with blanks between them are read back. -/
theorem ofLine_intercalate {names : List String} (h : ∀ name ∈ names, IsName name) :
    ofLine (String.intercalate " " names).toList = names.map .name := by
  rw [String.toList_intercalate]
  have hblank : " ".toList = [' '] := rfl
  rw [hblank]
  induction names with
  | nil => rw [List.map_nil, List.intercalate_nil, ofLine, List.map_nil]
  | cons name names ih =>
    rw [List.forall_mem_cons] at h
    cases names with
    | nil =>
      have hname : ofLine (name.toList ++ []) = .name name :: ofLine [] :=
        ofLine_append_name h.1 rfl
      rw [List.append_nil, ofLine] at hname
      rw [List.map_singleton, List.intercalate_singleton, hname, List.map_singleton]
    | cons second names =>
      rw [List.map_cons, List.map_cons, List.intercalate_cons_cons, List.append_assoc,
        ofLine_append_name h.1 rfl, List.singleton_append, ofLine_blank, ← List.map_cons, ih h.2,
        ← List.map_cons]

/-- Every name among the pieces of a line can be written. -/
theorem isName_of_mem_ofLine {text : List Char} {name : String}
    (h : .name name ∈ ofLine text) : IsName name := by
  fun_induction ofLine text with
  | case1 => cases h
  | case2 c rest hc ih =>
    rcases List.mem_cons.mp h with hrun | hrest
    · rw [ofRun] at hrun
      split at hrun
      · cases hrun
      · next hne =>
        obtain rfl := LineToken.name.inj hrun
        refine ⟨?_, ?_, ?_⟩
        · simp [← String.toList_inj]
        · rw [String.toList_ofList, List.forall_mem_cons]
          exact ⟨hc, fun d hd => List.mem_takeWhile_imp hd⟩
        · intro harrow
          apply hne
          rw [← String.toList_ofList (l := c :: _), harrow]
          rfl
    · exact ih hrest
  | case3 rest _ ih => exact ih (by simpa using h)
  | case4 rest _ _ ih => exact ih (by simpa using h)
  | case5 c rest _ _ _ ih => exact ih h

/-- A line feed stays a piece of its own. -/
theorem lineFeed_mem_ofLine {text : List Char} (h : '\n' ∈ text) : .lineFeed ∈ ofLine text := by
  fun_induction ofLine text with
  | case1 => cases h
  | case2 c rest hc ih =>
    have hrest : '\n' ∈ rest.dropWhile isNameCharacter := by
      rw [← List.takeWhile_append_dropWhile (p := isNameCharacter) (l := rest), ← List.cons_append,
        List.mem_append, List.mem_cons] at h
      rcases h with (rfl | hrun) | hrest
      · exact absurd hc (by decide)
      · exact absurd (List.mem_takeWhile_imp hrun) (by decide)
      · exact hrest
    exact List.mem_cons_of_mem _ (ih hrest)
  | case3 rest _ ih => exact List.mem_cons_of_mem _ (ih (by simpa using h))
  | case4 rest _ _ ih => exact List.mem_cons_self ..
  | case5 c rest _ _ hc ih => exact ih (by simpa [Ne.symm hc] using h)

end LineToken

/-! ### Productions from pieces -/

namespace Production

theorem splitAtPipes_ne_nil (tokens : List LineToken) : splitAtPipes tokens ≠ [] := by
  induction tokens with
  | nil => simp [splitAtPipes]
  | cons token rest ih =>
    cases token <;> simp only [splitAtPipes]
    · split <;> simp
    · simp
    · split <;> simp
    · split <;> simp

/-- The pieces of alternatives, with pipes between them. -/
def piecesOf (alternatives : List (List String)) : List LineToken :=
  [LineToken.pipe].intercalate (alternatives.map fun names => names.map .name)

theorem piecesOf_singleton (names : List String) : piecesOf [names] = names.map .name := by
  rw [piecesOf, List.map_singleton, List.intercalate_singleton]

theorem piecesOf_cons_cons (names second : List String) (alternatives : List (List String)) :
    piecesOf (names :: second :: alternatives) =
      names.map .name ++ .pipe :: piecesOf (second :: alternatives) := by
  rw [piecesOf, List.map_cons, List.map_cons, List.intercalate_cons_cons, List.append_assoc,
    List.singleton_append, ← List.map_cons, ← piecesOf]

theorem splitAtPipes_names (names : List String) :
    splitAtPipes (names.map .name) = [names] := by
  induction names with
  | nil => rfl
  | cons name names ih => simp only [List.map_cons, splitAtPipes, ih, LineToken.text]

theorem splitAtPipes_append_pipe (names : List String) (rest : List LineToken) :
    splitAtPipes (names.map .name ++ .pipe :: rest) = names :: splitAtPipes rest := by
  induction names with
  | nil => rfl
  | cons name names ih =>
    simp only [List.map_cons, List.cons_append, splitAtPipes, ih, LineToken.text]

/-- The alternatives are what stands between the pipes. -/
theorem splitAtPipes_piecesOf {alternatives : List (List String)} (hne : alternatives ≠ []) :
    splitAtPipes (piecesOf alternatives) = alternatives := by
  induction alternatives with
  | nil => exact absurd rfl hne
  | cons names alternatives ih =>
    cases alternatives with
    | nil => rw [piecesOf_singleton, splitAtPipes_names]
    | cons second alternatives =>
      rw [piecesOf_cons_cons, splitAtPipes_append_pipe, ih (List.cons_ne_nil _ _)]

/-- Names and pipes are the pieces of what stands between the pipes. -/
theorem piecesOf_splitAtPipes {tokens : List LineToken} (harrow : .arrow ∉ tokens)
    (hfeed : .lineFeed ∉ tokens) : piecesOf (splitAtPipes tokens) = tokens := by
  induction tokens with
  | nil => rfl
  | cons token rest ih =>
    rw [List.mem_cons, not_or] at harrow hfeed
    have hrest := ih harrow.2 hfeed.2
    obtain ⟨first, others, hsplit⟩ := List.exists_cons_of_ne_nil (splitAtPipes_ne_nil rest)
    rw [hsplit] at hrest
    cases token with
    | arrow => exact absurd rfl harrow.1
    | lineFeed => exact absurd rfl hfeed.1
    | pipe => rw [splitAtPipes, hsplit, piecesOf_cons_cons, hrest, List.map_nil, List.nil_append]
    | name n =>
      simp only [splitAtPipes, hsplit, LineToken.text]
      rw [← hrest]
      cases others with
      | nil => rw [piecesOf_singleton, piecesOf_singleton, List.map_cons]
      | cons second others =>
        rw [piecesOf_cons_cons, piecesOf_cons_cons, List.map_cons, List.cons_append]

/-- The names among the pieces of alternatives. -/
theorem filterMap_piecesOf (alternatives : List (List String)) :
    (piecesOf alternatives).filterMap LineToken.name? = alternatives.flatten := by
  have hnames : ∀ names : List String,
      (names.map LineToken.name).filterMap LineToken.name? = names := by
    intro names
    rw [List.filterMap_map]
    exact List.filterMap_some
  induction alternatives with
  | nil => rfl
  | cons names alternatives ih =>
    cases alternatives with
    | nil => rw [piecesOf_singleton, hnames, List.flatten_singleton]
    | cons second alternatives =>
      rw [piecesOf_cons_cons, List.filterMap_append, hnames, List.flatten_cons, ← ih]
      rfl

/-- Alternatives are written without arrows and line feeds. -/
theorem ne_of_mem_piecesOf {alternatives : List (List String)} {token : LineToken}
    (h : token ∈ piecesOf alternatives) : token ≠ .arrow ∧ token ≠ .lineFeed := by
  induction alternatives with
  | nil => cases h
  | cons names alternatives ih =>
    cases alternatives with
    | nil =>
      rw [piecesOf_singleton, List.mem_map] at h
      obtain ⟨n, -, rfl⟩ := h
      exact ⟨LineToken.noConfusion, LineToken.noConfusion⟩
    | cons second alternatives =>
      rw [piecesOf_cons_cons, List.mem_append, List.mem_cons, List.mem_map] at h
      rcases h with ⟨n, -, rfl⟩ | rfl | h
      · exact ⟨LineToken.noConfusion, LineToken.noConfusion⟩
      · exact ⟨LineToken.noConfusion, LineToken.noConfusion⟩
      · exact ih h

theorem leftSideOf_eq_ok {line : Nat} {tokens : List LineToken} {lhs : String} :
    leftSideOf line tokens = .ok lhs ↔ tokens = [.name lhs] := by
  constructor
  · intro h
    unfold leftSideOf at h
    split at h
    · cases h
    · cases h
      rfl
    · cases h
  · rintro rfl
    rfl

theorem alternativesOf_eq_ok {line : Nat} {tokens : List LineToken}
    {alternatives : List (List String)} :
    alternativesOf line tokens = .ok alternatives ↔
      [] ∉ alternatives ∧ splitAtPipes tokens = alternatives := by
  have hany : (splitAtPipes tokens).any List.isEmpty = true ↔ [] ∈ splitAtPipes tokens := by
    simp [List.any_eq_true]
  simp only [alternativesOf, hany]
  constructor
  · intro h
    split at h
    · cases h
    · next hnil =>
      cases h
      exact ⟨hnil, rfl⟩
  · rintro ⟨hnil, rfl⟩
    rw [if_neg hnil]

/-- The first arrow parts the left side from the alternatives. -/
theorem split_at_arrow {before : List LineToken} (h : .arrow ∉ before) (rest : List LineToken) :
    (before ++ .arrow :: rest).takeWhile (· ≠ .arrow) = before ∧
      (before ++ .arrow :: rest).dropWhile (· ≠ .arrow) = .arrow :: rest := by
  have hne : ∀ token ∈ before, decide (token ≠ .arrow) = true := by
    intro token htoken
    apply decide_eq_true
    rintro rfl
    exact h htoken
  rw [List.takeWhile_append_of_pos hne, List.dropWhile_append_of_pos hne]
  simp

/-- Pieces with a single arrow are what stands in front of it and what stands behind it. -/
theorem exists_split_at_arrow {tokens : List LineToken} (hmissing : tokens.count .arrow ≠ 0)
    (hmany : ¬1 < tokens.count .arrow) :
    ∃ before rest, tokens = before ++ .arrow :: rest ∧ .arrow ∉ before ∧ .arrow ∉ rest := by
  have harrow : .arrow ∈ tokens := List.count_pos_iff.mp (Nat.pos_of_ne_zero hmissing)
  obtain ⟨before, rest, rfl, hbefore⟩ := List.eq_append_cons_of_mem harrow
  refine ⟨before, rest, rfl, hbefore, fun hrest => ?_⟩
  have hpos : 0 < rest.count .arrow := List.count_pos_iff.mpr hrest
  rw [List.count_append, List.count_cons_self] at hmany
  omega

/-- Pieces are read as a production exactly if they are a name, an arrow and the pieces of
alternatives, none of them empty. -/
theorem ofTokens_eq_ok {line : Nat} {tokens : List LineToken} {p : Production} :
    ofTokens line tokens = .ok p ↔ p.line = line ∧ p.alternatives ≠ [] ∧ [] ∉ p.alternatives ∧
      tokens = .name p.lhs :: .arrow :: piecesOf p.alternatives := by
  simp only [ofTokens, guard_eq_ok, bind_eq_ok, leftSideOf_eq_ok, alternativesOf_eq_ok]
  constructor
  · rintro ⟨hfeed, hmissing, hmany, lhs, hlhs, alternatives, ⟨hnil, rfl⟩, hp⟩
    cases hp
    obtain ⟨before, rest, rfl, hbefore, harrow⟩ := exists_split_at_arrow hmissing hmany
    obtain ⟨htake, hdrop⟩ := split_at_arrow hbefore rest
    obtain rfl : before = [.name lhs] := htake.symm.trans hlhs
    rw [hdrop, List.tail_cons] at hnil ⊢
    have hrest : .lineFeed ∉ rest := fun h => hfeed (by simp [h])
    refine ⟨rfl, splitAtPipes_ne_nil rest, hnil, ?_⟩
    rw [piecesOf_splitAtPipes harrow hrest, List.singleton_append]
  · rintro ⟨rfl, hne, hnil, rfl⟩
    have hlhs : .arrow ∉ [LineToken.name p.lhs] := by simp
    obtain ⟨htake, hdrop⟩ := split_at_arrow hlhs (piecesOf p.alternatives)
    rw [List.singleton_append] at htake hdrop
    have hcount : (piecesOf p.alternatives).count .arrow = 0 :=
      List.count_eq_zero.mpr fun hmem => (ne_of_mem_piecesOf hmem).1 rfl
    have hfeed : .lineFeed ∉ piecesOf p.alternatives := fun hmem => (ne_of_mem_piecesOf hmem).2 rfl
    refine ⟨by simpa using hfeed, by simp, by simp [hcount], p.lhs, htake, p.alternatives, ?_, rfl⟩
    rw [hdrop, List.tail_cons]
    exact ⟨hnil, splitAtPipes_piecesOf hne⟩

/-- The names of a production are those on its line, in the same order. -/
theorem names_of_ofLine {line : Nat} {text : List Char} {p : Production}
    (h : ofLine line text = .ok p) : p.names = (LineToken.ofLine text).filterMap LineToken.name? := by
  obtain ⟨-, -, -, htokens⟩ := ofTokens_eq_ok.mp h
  rw [htokens]
  simp only [List.filterMap_cons, LineToken.name?, filterMap_piecesOf]
  rfl

/-- The names of a production can be written. -/
theorem isName_of_ofLine {line : Nat} {text : List Char} {p : Production}
    (h : ofLine line text = .ok p) : ∀ name ∈ p.names, IsName name := by
  intro name hname
  rw [names_of_ofLine h, List.mem_filterMap] at hname
  obtain ⟨token, htoken, hsome⟩ := hname
  cases token with
  | name n =>
    cases hsome
    exact LineToken.isName_of_mem_ofLine htoken
  | arrow | pipe | lineFeed => cases hsome

/-- The checks let a production through unchanged. -/
theorem check_eq_ok {p q : Production} :
    p.check = .ok q ↔ q = p ∧ SymbolName.isReserved p.lhs = false ∧
      SymbolKind.ofName p.lhs = .nonterminal ∧
      ∀ name ∈ p.rightNames, SymbolName.isReserved name = false := by
  unfold check
  constructor
  · intro h
    split at h
    · cases h
    · next hlhs =>
      split at h
      · cases h
      · next hkind =>
        split at h
        · cases h
        · next hright =>
          cases h
          refine ⟨rfl, Bool.eq_false_iff.mpr hlhs, Decidable.not_not.mp hkind, ?_⟩
          exact fun name hname => Bool.eq_false_iff.mpr (List.find?_eq_none.mp hright name hname)
  · rintro ⟨rfl, hlhs, hkind, hright⟩
    have hfind : q.rightNames.find? SymbolName.isReserved = none :=
      List.find?_eq_none.mpr fun name hname => Bool.eq_false_iff.mp (hright name hname)
    rw [if_neg (Bool.eq_false_iff.mp hlhs), if_neg (not_not_intro hkind), hfind]

/-- A production that passes the checks uses no reserved name. -/
theorem not_reserved_of_check {p q : Production} (h : p.check = .ok q) :
    ∀ name ∈ p.names, SymbolName.isReserved name = false := by
  obtain ⟨-, hlhs, -, hright⟩ := check_eq_ok.mp h
  intro name hname
  rcases List.mem_cons.mp hname with rfl | hname
  · exact hlhs
  · exact hright name hname

end Production

/-! ### Productions of a text -/

namespace Grammar

/-- The lines that are no remarks, and not blank. -/
def productionLines (ls : List (Nat × List Char)) : List (Nat × List Char) :=
  ls.filter fun l => !Production.isIgnorable l.2

/-- The productions of lines are read exactly if each of the lines that hold one is read and
checked. -/
theorem readProductions_eq_ok {ls : List (Nat × List Char)} {ps : List Production} :
    readProductions ls = .ok ps ↔
      List.Forall₂ (fun l p => Production.ofLine l.1 l.2 = .ok p ∧ p.check = .ok p)
        (productionLines ls) ps := by
  induction ls generalizing ps with
  | nil => simp [readProductions, productionLines, eq_comm]
  | cons l ls ih =>
    obtain ⟨line, text⟩ := l
    rw [readProductions, productionLines]
    by_cases hignorable : Production.isIgnorable text
    · rw [if_pos hignorable, List.filter_cons_of_neg (by simpa using hignorable), ih,
        productionLines]
    · rw [if_neg hignorable, List.filter_cons_of_pos (by simpa using hignorable),
        List.forall₂_cons_left_iff]
      simp only [bind_eq_ok, ih, productionLines]
      constructor
      · rintro ⟨p, hp, q, hcheck, others, hothers, hps⟩
        cases hps
        obtain rfl := (Production.check_eq_ok.mp hcheck).1
        exact ⟨q, others, ⟨hp, hcheck⟩, hothers, rfl⟩
      · rintro ⟨p, others, ⟨hp, hcheck⟩, hothers, rfl⟩
        exact ⟨p, hp, p, hcheck, others, hothers, rfl⟩

end Grammar

end PredictiveFrontend

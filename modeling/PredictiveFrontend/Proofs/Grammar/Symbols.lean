import PredictiveFrontend.Proofs.Grammar.WellFormed

/-!
# The symbols of a grammar text

The symbols of a grammar that is read from a text are the two fixed ones and, behind them, the names
that its productions are written with, each of them once and in the order in which they are first
seen. The kind of a symbol is told by its spelling, and every code and every rule number that a rule
carries can be looked up.
-/

namespace PredictiveFrontend

/-! ### Kinds and codes -/

/-- Nonterminals are spelled with a capital first letter, and are neither the empty word nor a
built-in type. -/
theorem SymbolKind.ofName_eq_nonterminal {name : String} :
    SymbolKind.ofName name = .nonterminal ↔ name ≠ SymbolName.epsilon ∧
      name ∉ SymbolName.builtinTypes ∧ name.toList.head?.any Text.isUppercase = true := by
  unfold SymbolKind.ofName
  by_cases hfixed : name = SymbolName.epsilon ∨ name ∈ SymbolName.builtinTypes
  · rw [if_pos hfixed]
    constructor
    · intro h
      cases h
    · rintro ⟨hepsilon, hbuiltin, -⟩
      exact absurd hfixed (not_or.mpr ⟨hepsilon, hbuiltin⟩)
  · rw [if_neg hfixed]
    rw [not_or] at hfixed
    cases name.toList with
    | nil => simp
    | cons c rest => simp [hfixed]

namespace Alphabet

/-- Interning appends the new names, each of them once and in first-seen order. -/
theorem names_internAll (a : Alphabet) (names : List String) :
    (a.internAll names).names = a.names ++ (names.filter (· ∉ a.names)).eraseDups := by
  induction names generalizing a with
  | nil => simp [internAll]
  | cons name names ih =>
    have hstep : a.internAll (name :: names) = (a.intern name).internAll names := rfl
    rw [hstep, ih]
    by_cases h : name ∈ a.names
    · rw [intern, if_pos h, List.filter_cons_of_neg (by simpa using h)]
    · -- The name is new: the names behind it are new if they are so far and differ from it.
      have hnew : ∀ other, decide (other ∉ a.names ++ [name]) =
          (!other == name && decide (other ∉ a.names)) := by
        intro other
        by_cases hother : other = name <;> simp [hother]
      simp only [intern, if_neg h, hnew]
      rw [List.filter_cons_of_pos (by simpa using h), List.eraseDups_cons, List.filter_filter,
        List.append_assoc, List.singleton_append]

/-- Names and codes determine each other. -/
theorem code?_eq_some {a : Alphabet} (hd : a.names.Nodup) {name : String} {c : Code} :
    a.code? name = some c ↔ c < a.size ∧ a.name c = name := by
  constructor
  · exact name_of_code?
  · rintro ⟨hc, rfl⟩
    exact code?_name hd hc

end Alphabet

/-! ### Names on lines -/

namespace Grammar

/-- The names on the lines that hold a production, in order. -/
def writtenNames (ls : List (Nat × List Char)) : List String :=
  (productionLines ls).flatMap fun l => (LineToken.ofLine l.2).filterMap LineToken.name?

/-- The names of productions are those on their lines. -/
theorem flatMap_names_of_readProductions {ls : List (Nat × List Char)} {ps : List Production}
    (h : readProductions ls = .ok ps) : ps.flatMap Production.names = writtenNames ls := by
  rw [readProductions_eq_ok] at h
  rw [writtenNames]
  generalize productionLines ls = held at h
  induction h with
  | nil => rfl
  | cons hread _ ih =>
    rw [List.flatMap_cons, List.flatMap_cons, ih, Production.names_of_ofLine hread.1]

/-- No name on a line that is read is reserved. -/
theorem not_reserved_of_readProductions {ls : List (Nat × List Char)} {ps : List Production}
    (h : readProductions ls = .ok ps) :
    ∀ name ∈ writtenNames ls, SymbolName.isReserved name = false := by
  intro name hname
  rw [← flatMap_names_of_readProductions h, List.mem_flatMap] at hname
  obtain ⟨p, hp, hname⟩ := hname
  obtain ⟨l, -, -, hcheck⟩ := exists_of_forall₂_of_mem (readProductions_eq_ok.mp h) hp
  exact Production.not_reserved_of_check hcheck name hname

end Grammar

/-! ### Symbols of a text -/

/-- What the symbols of an alphabet are, by the names that a text is written with. -/
structure Alphabet.Collects (a : Alphabet) (written : List String) : Prop where
  /-- Behind the two fixed symbols every name stands once, where it is first seen. -/
  names : a.names = [SymbolName.epsilon, SymbolName.endOfInput] ++
    (written.filter (· ≠ SymbolName.epsilon)).eraseDups
  /-- Names and codes determine each other. -/
  code? : ∀ name c, a.code? name = some c ↔ c < a.size ∧ a.name c = name
  /-- The empty word is a terminal. -/
  isTerminal_epsilon : a.isTerminal Code.epsilon = true
  /-- The end of input is a terminal. -/
  isTerminal_endOfInput : a.isTerminal Code.endOfInput = true
  /-- The kind of a symbol is told by its spelling. -/
  isNonterminal : ∀ c, a.isNonterminal c = true ↔ c ≠ Code.epsilon ∧
    a.name c ∉ SymbolName.builtinTypes ∧ (a.name c).toList.head?.any Text.isUppercase = true

namespace Grammar

/-- No name of a text is that of the end of input, so behind the fixed symbols the other names
follow. -/
theorem names_alphabetOf {ls : List (Nat × List Char)} {ps : List Production}
    (h : readProductions ls = .ok ps) :
    (alphabetOf ps).names = [SymbolName.epsilon, SymbolName.endOfInput] ++
      ((writtenNames ls).filter (· ≠ SymbolName.epsilon)).eraseDups := by
  have hnew : (writtenNames ls).filter (· ∉ Alphabet.base.names) =
      (writtenNames ls).filter (· ≠ SymbolName.epsilon) := by
    apply List.filter_congr
    intro name hname
    have hreserved := not_reserved_of_readProductions h name hname
    have hend : name ≠ SymbolName.endOfInput := by
      rintro rfl
      exact absurd hreserved (by decide)
    simp [Alphabet.base, hend]
  rw [alphabetOf, Alphabet.names_internAll, flatMap_names_of_readProductions h, hnew]
  rfl

/-- Only the code of the empty word has its name. -/
theorem WellFormed.name_eq_epsilon {g : Grammar} (wf : g.WellFormed) {c : Code} :
    g.alphabet.name c = SymbolName.epsilon ↔ c = Code.epsilon := by
  have hname := (Alphabet.name_of_base_prefix wf.base).1
  constructor
  · intro hc
    have hlt : c < g.alphabet.size := by
      apply Nat.lt_of_not_le
      intro hle
      rw [Alphabet.name, List.getElem?_eq_none hle] at hc
      exact absurd hc (by decide)
    rw [← Alphabet.code_name wf.nodup hlt, hc, ← hname, Alphabet.code_name wf.nodup wf.epsilon_lt]
  · rintro rfl
    exact hname

/-- The alphabet of a text collects the names on its lines. -/
theorem collects_of_ofText {text : String} {g : Grammar} (h : ofText text = .ok g) :
    g.alphabet.Collects (writtenNames (numberedLines text)) := by
  have wf := wellFormed_of_ofText h
  simp only [ofText, bind_eq_ok] at h
  obtain ⟨ps, hps, hg⟩ := h
  obtain ⟨first, others, -, -, rfl⟩ := ofProductions_eq_ok.mp hg
  constructor
  case names => exact names_alphabetOf hps
  case code? => exact fun name c => Alphabet.code?_eq_some wf.nodup
  case isTerminal_epsilon => exact wf.isTerminal_epsilon
  case isTerminal_endOfInput => exact wf.isTerminal_endOfInput
  case isNonterminal =>
    intro c
    rw [Alphabet.isNonterminal, beq_iff_eq, Alphabet.kind, SymbolKind.ofName_eq_nonterminal,
      Ne, wf.name_eq_epsilon]

/-- The names of a grammar text, and the fixed ones, are written with the characters of names. -/
theorem isNameCharacter_of_ofText {text : String} {g : Grammar} (h : ofText text = .ok g) :
    ∀ name ∈ g.alphabet.names, ∀ c ∈ name.toList, LineToken.isNameCharacter c = true := by
  intro name hname
  rw [(collects_of_ofText h).names, List.mem_append, List.mem_eraseDups, writtenNames] at hname
  rcases hname with hfixed | hwritten
  · have hall : ∀ fixed ∈ [SymbolName.epsilon, SymbolName.endOfInput],
        fixed.toList.all LineToken.isNameCharacter = true := by
      decide
    exact List.all_eq_true.mp (hall name hfixed)
  · obtain ⟨l, -, hl⟩ := List.mem_flatMap.mp (List.mem_of_mem_filter hwritten)
    obtain ⟨token, htoken, hsome⟩ := List.mem_filterMap.mp hl
    cases token with
    | name n =>
      cases hsome
      exact (LineToken.isName_of_mem_ofLine htoken).isNameCharacter
    | arrow | pipe | lineFeed => cases hsome

/-- A grammar that is read from a text is well formed: its symbols are the fixed ones and the names
that are written, in first-seen order and with the kinds that their spelling tells, and all codes
and rule numbers are in range. -/
theorem loaded_wellFormed {text : String} {g : Grammar} (h : ofText text = .ok g) :
    g.WellFormed ∧ g.alphabet.Collects (writtenNames (numberedLines text)) ∧
      g.start < g.alphabet.size ∧
      ∀ r ∈ g.rules, r.lhs < g.alphabet.size ∧ r.lhs ≠ Code.endOfInput ∧
        g.rule? r.number = some r := by
  have wf := wellFormed_of_ofText h
  refine ⟨wf, collects_of_ofText h, Alphabet.lt_size_of_isNonterminal wf.isNonterminal_start, ?_⟩
  intro r hr
  exact ⟨wf.lhs_lt hr, wf.ne_endOfInput_of_isNonterminal (wf.lhs_nonterminal r hr),
    wf.rule?_number hr⟩

/-- A text with a remark and a blank line. It uses `A` before its production, a built-in type, and
the empty word beside another name. -/
def remarkedText : String :=
  "# pairs\nS -> A b | EPSILON S\n\nA -> Int | b A"

/-- The grammar of the text: `A` is seen before `b`. -/
def remarked : Grammar :=
  ⟨⟨["EPSILON", "$", "S", "A", "b", "Int"]⟩,
    [⟨0, 2, [3, 4]⟩, ⟨1, 2, [0, 2]⟩, ⟨2, 3, [5]⟩, ⟨3, 3, [4, 3]⟩], 2⟩

theorem loaded_wellFormed_remarked :
    ofText remarkedText = .ok remarked ∧ remarked.WellFormed ∧
      remarked.alphabet.Collects ["S", "A", "b", "EPSILON", "S", "A", "Int", "b", "A"] ∧
      ∀ r ∈ remarked.rules, r.lhs < 6 ∧ remarked.rule? r.number = some r := by
  have h : ofText remarkedText = .ok remarked := by decide +kernel
  have hwritten : writtenNames (numberedLines remarkedText) =
      ["S", "A", "b", "EPSILON", "S", "A", "Int", "b", "A"] := by decide +kernel
  obtain ⟨hwf, hcollects, -, hrules⟩ := loaded_wellFormed h
  rw [hwritten] at hcollects
  exact ⟨h, hwf, hcollects, fun r hr => ⟨(hrules r hr).1, (hrules r hr).2.2⟩⟩

end Grammar

end PredictiveFrontend

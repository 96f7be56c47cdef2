import PredictiveFrontend.Proofs.Grammar.ProductionLine

/-!
# Well-formed grammars

Every grammar read from a text is well formed: its names are distinct and begin with those of the
empty word and the end of input, every rule has its position as its number and stays inside the
alphabet, no rule mentions the end of input, and every nonterminal has a rule. All that looks up
codes and rule numbers later rests on these facts.
-/

namespace PredictiveFrontend

/-! ### Names and codes -/

namespace Alphabet

/-- Interning only appends. -/
theorem prefix_names_intern (a : Alphabet) (name : String) :
    a.names <+: (a.intern name).names := by
  unfold intern
  split
  · exact List.prefix_rfl
  · exact List.prefix_append _ _

theorem mem_names_intern {a : Alphabet} {name other : String} :
    other ∈ (a.intern name).names ↔ other ∈ a.names ∨ other = name := by
  unfold intern
  split
  · next h =>
    refine ⟨Or.inl, ?_⟩
    rintro (hm | rfl)
    · exact hm
    · exact h
  · simp

theorem prefix_names_internAll (a : Alphabet) (names : List String) :
    a.names <+: (a.internAll names).names := by
  induction names generalizing a with
  | nil => exact List.prefix_rfl
  | cons name names ih => exact (a.prefix_names_intern name).trans (ih (a.intern name))

theorem mem_names_internAll {a : Alphabet} {names : List String} {other : String} :
    other ∈ (a.internAll names).names ↔ other ∈ a.names ∨ other ∈ names := by
  induction names generalizing a with
  | nil => simp [internAll]
  | cons name names ih =>
    have h := ih (a := a.intern name)
    rw [mem_names_intern, or_assoc, ← List.mem_cons] at h
    exact h

theorem nodup_internAll {a : Alphabet} (h : a.names.Nodup) (names : List String) :
    (a.internAll names).names.Nodup := by
  induction names generalizing a with
  | nil => exact h
  | cons name names ih => exact ih (nodup_intern h name)

theorem code_lt {a : Alphabet} {name : String} (h : name ∈ a.names) : a.code name < a.size :=
  List.idxOf_lt_length_of_mem h

/-- A name that the alphabet holds is recovered from its code. -/
theorem name_code {a : Alphabet} {name : String} (h : name ∈ a.names) :
    a.name (a.code name) = name := by
  unfold Alphabet.name Alphabet.code
  rw [List.getElem?_eq_getElem (List.idxOf_lt_length_of_mem h), List.getElem_idxOf]
  rfl

theorem name_mem {a : Alphabet} {c : Code} (h : c < a.size) : a.name c ∈ a.names := by
  unfold Alphabet.name
  rw [List.getElem?_eq_getElem h]
  exact List.getElem_mem h

/-- Distinct names have distinct codes: the code of the name of a code is that code. -/
theorem code_name {a : Alphabet} {c : Code} (hd : a.names.Nodup) (h : c < a.size) :
    a.code (a.name c) = c := by
  unfold Alphabet.name Alphabet.code
  rw [List.getElem?_eq_getElem h]
  exact hd.idxOf_getElem c h

/-- A code that is found for a name is inside the alphabet and has that name. -/
theorem name_of_code? {a : Alphabet} {name : String} {c : Code} (h : a.code? name = some c) :
    c < a.size ∧ a.name c = name := by
  obtain ⟨hc, hn, _⟩ := List.idxOf?_eq_some_iff.mp h
  refine ⟨hc, ?_⟩
  unfold Alphabet.name
  rw [List.getElem?_eq_getElem hc]
  exact hn

/-- The name of a code is found at this code. -/
theorem code?_name {a : Alphabet} (hd : a.names.Nodup) {c : Code} (h : c < a.size) :
    a.code? (a.name c) = some c := by
  cases hcode : a.code? (a.name c) with
  | none => exact absurd (name_mem h) (List.idxOf?_eq_none_iff.mp hcode)
  | some d =>
    obtain ⟨hd', hname⟩ := name_of_code? hcode
    rw [← code_name hd h, ← hname, code_name hd hd']

/-- Codes outside the alphabet count as terminals. -/
theorem lt_size_of_isNonterminal {a : Alphabet} {c : Code} (h : a.isNonterminal c = true) :
    c < a.size := by
  refine Nat.lt_of_not_le fun hc => ?_
  have hn : a.name c = "" := by
    unfold Alphabet.name
    rw [List.getElem?_eq_none hc]
    rfl
  rw [isNonterminal, kind, hn] at h
  exact absurd h (by decide)

/-- An alphabet that grew from the least one begins with its two names. -/
theorem name_of_base_prefix {a : Alphabet} (h : base.names <+: a.names) :
    a.name Code.epsilon = SymbolName.epsilon ∧ a.name Code.endOfInput = SymbolName.endOfInput := by
  obtain ⟨rest, hr⟩ := h
  simp only [Alphabet.name, ← hr]
  exact ⟨rfl, rfl⟩

theorem isTerminal_eq_false {a : Alphabet} {c : Code} :
    a.isTerminal c = false ↔ a.isNonterminal c = true := by
  rw [isNonterminal_eq_not, Bool.not_eq_true']

end Alphabet

/-! ### Productions -/

namespace Production

/-- What is true of every production that is read from a line and checked. -/
structure WellFormed (p : Production) : Prop where
  /-- The left side is expanded by rules. -/
  lhs_nonterminal : SymbolKind.ofName p.lhs = .nonterminal
  /-- The right side does not mention the end of input. -/
  not_reserved : ∀ name ∈ p.rightNames, SymbolName.isReserved name = false
  /-- There is an alternative. -/
  alternatives_ne_nil : p.alternatives ≠ []
  /-- No alternative is empty; the empty word is written with its marker. -/
  nil_not_mem : [] ∉ p.alternatives

theorem wellFormed_of_check {line : Nat} {text : List Char} {p q : Production}
    (hp : ofLine line text = .ok p) (hq : p.check = .ok q) : q.WellFormed := by
  obtain ⟨rfl, -, hk, hr⟩ := check_eq_ok.mp hq
  obtain ⟨-, hne, hnil, -⟩ := ofTokens_eq_ok.mp hp
  exact ⟨hk, hr, hne, hnil⟩

end Production

/-! ### Grammars -/

/-- An alternative with its left side, by name. -/
abbrev Branch := String × List String

namespace Grammar

/-- What is true of every grammar that is read from a text. -/
structure WellFormed (g : Grammar) : Prop where
  /-- No two symbols have the same name. -/
  nodup : g.alphabet.names.Nodup
  /-- The first two symbols are the empty word and the end of input. -/
  base : Alphabet.base.names <+: g.alphabet.names
  /-- Rules are numbered by their positions. -/
  number : ∀ (i : Nat) (r : Rule), g.rules[i]? = some r → r.number = i
  /-- Rules are for nonterminals. -/
  lhs_nonterminal : ∀ r ∈ g.rules, g.alphabet.isNonterminal r.lhs = true
  /-- Right sides are written out, the empty word by its marker. -/
  rhs_ne_nil : ∀ r ∈ g.rules, r.rhs ≠ []
  /-- Right sides stay inside the alphabet. -/
  rhs_lt : ∀ r ∈ g.rules, ∀ c ∈ r.rhs, c < g.alphabet.size
  /-- No rule mentions the end of input. -/
  endOfInput_not_mem : ∀ r ∈ g.rules, Code.endOfInput ∉ r.rhs
  /-- Every nonterminal has a rule. -/
  defined : ∀ c, g.alphabet.isNonterminal c = true → ∃ r ∈ g.rules, r.lhs = c
  /-- The start symbol is the left side of the first rule. -/
  start : g.rules.head?.map Rule.lhs = some g.start

/-- Every production that is read from a text is well formed. -/
theorem wellFormed_of_readProductions {lines : List (Nat × List Char)} {ps : List Production}
    (h : readProductions lines = .ok ps) : ∀ p ∈ ps, p.WellFormed := by
  intro p hp
  obtain ⟨l, -, hread, hcheck⟩ := exists_of_forall₂_of_mem (readProductions_eq_ok.mp h) hp
  exact Production.wellFormed_of_check hread hcheck

/-- The alternatives of productions, each with its left side. -/
def branches (ps : List Production) : List Branch :=
  ps.flatMap fun p => p.alternatives.map fun names => (p.lhs, names)

theorem mem_branches {ps : List Production} {b : Branch} :
    b ∈ branches ps ↔ ∃ p ∈ ps, b.1 = p.lhs ∧ b.2 ∈ p.alternatives := by
  simp only [branches, List.mem_flatMap, List.mem_map]
  constructor
  · rintro ⟨p, hp, names, hnames, rfl⟩
    exact ⟨p, hp, rfl, hnames⟩
  · rintro ⟨p, hp, hlhs, hnames⟩
    exact ⟨p, hp, b.2, hnames, Prod.ext hlhs.symm rfl⟩

theorem getElem?_rulesOf (a : Alphabet) (ps : List Production) (i : Nat) :
    (rulesOf a ps)[i]? = (branches ps)[i]?.map fun b => ⟨i, a.code b.1, b.2.map a.code⟩ := by
  simp only [rulesOf, List.getElem?_map, List.getElem?_zipIdx, Option.map_map, Nat.zero_add]
  rfl

/-- A rule is an alternative of a production, with codes for names. -/
theorem exists_of_mem_rulesOf {a : Alphabet} {ps : List Production} {r : Rule}
    (h : r ∈ rulesOf a ps) : ∃ p ∈ ps, ∃ names ∈ p.alternatives,
      r.lhs = a.code p.lhs ∧ r.rhs = names.map a.code := by
  obtain ⟨i, hi⟩ := List.getElem?_of_mem h
  rw [getElem?_rulesOf, Option.map_eq_some_iff] at hi
  obtain ⟨b, hb, rfl⟩ := hi
  obtain ⟨p, hp, hlhs, hnames⟩ := mem_branches.mp (List.mem_of_getElem? hb)
  exact ⟨p, hp, b.2, hnames, congrArg a.code hlhs, rfl⟩

/-- Every alternative of a production gives a rule. -/
theorem exists_mem_rulesOf (a : Alphabet) {ps : List Production} {p : Production} (hp : p ∈ ps)
    {names : List String} (hn : names ∈ p.alternatives) :
    ∃ r ∈ rulesOf a ps, r.lhs = a.code p.lhs := by
  have hm : (p.lhs, names) ∈ branches ps := mem_branches.mpr ⟨p, hp, rfl, hn⟩
  obtain ⟨i, hi⟩ := List.getElem?_of_mem hm
  refine ⟨⟨i, a.code p.lhs, names.map a.code⟩, List.mem_of_getElem? (i := i) ?_, rfl⟩
  rw [getElem?_rulesOf, hi]
  rfl

/-- No reference is undefined exactly if every nonterminal on a right side has a production. -/
theorem firstUndefined?_eq_none {ps : List Production} :
    firstUndefined? ps = none ↔ ∀ p ∈ ps, ∀ name ∈ p.rightNames,
      SymbolKind.ofName name = .nonterminal → ∃ q ∈ ps, q.lhs = name := by
  simp only [firstUndefined?, List.findSome?_eq_none_iff, Option.map_eq_none_iff,
    List.find?_eq_none, Production.references, List.mem_filter, beq_iff_eq, decide_eq_true_eq,
    Decidable.not_not, List.mem_map, and_imp]

/-- The alphabet of productions holds the names they use. -/
theorem mem_alphabetOf {ps : List Production} {name : String} :
    name ∈ (alphabetOf ps).names ↔
      name ∈ Alphabet.base.names ∨ ∃ p ∈ ps, name = p.lhs ∨ name ∈ p.rightNames := by
  simp only [alphabetOf, Alphabet.mem_names_internAll, List.mem_flatMap, Production.names,
    List.mem_cons]

theorem base_prefix_alphabetOf (ps : List Production) :
    Alphabet.base.names <+: (alphabetOf ps).names :=
  Alphabet.prefix_names_internAll _ _

theorem nodup_alphabetOf (ps : List Production) : (alphabetOf ps).names.Nodup :=
  Alphabet.nodup_internAll (by decide) _

theorem mem_alphabetOf_of_lhs {ps : List Production} {p : Production} (hp : p ∈ ps) :
    p.lhs ∈ (alphabetOf ps).names :=
  mem_alphabetOf.mpr (Or.inr ⟨p, hp, Or.inl rfl⟩)

/-- A symbol on the right side of a rule has the code of a name of its production. -/
theorem exists_name_of_mem_rhs {ps : List Production} {r : Rule}
    (hr : r ∈ rulesOf (alphabetOf ps) ps) {c : Code} (hc : c ∈ r.rhs) :
    ∃ p ∈ ps, ∃ name ∈ p.rightNames, name ∈ (alphabetOf ps).names ∧
      (alphabetOf ps).code name = c := by
  obtain ⟨p, hp, names, hn, _, hrhs⟩ := exists_of_mem_rulesOf hr
  rw [hrhs] at hc
  obtain ⟨name, hm, hcode⟩ := List.mem_map.mp hc
  have hright : name ∈ p.rightNames := List.mem_flatten.mpr ⟨names, hn, hm⟩
  exact ⟨p, hp, name, hright, mem_alphabetOf.mpr (Or.inr ⟨p, hp, Or.inr hright⟩), hcode⟩

section

variable {ps : List Production} (hps : ∀ p ∈ ps, p.WellFormed)
include hps

theorem isNonterminal_lhs_of_mem_rulesOf {r : Rule} (hr : r ∈ rulesOf (alphabetOf ps) ps) :
    (alphabetOf ps).isNonterminal r.lhs = true := by
  obtain ⟨p, hp, _, _, hl, _⟩ := exists_of_mem_rulesOf hr
  rw [Alphabet.isNonterminal, Alphabet.kind, hl, Alphabet.name_code (mem_alphabetOf_of_lhs hp),
    (hps p hp).lhs_nonterminal]
  rfl

theorem rhs_ne_nil_of_mem_rulesOf {r : Rule} (hr : r ∈ rulesOf (alphabetOf ps) ps) :
    r.rhs ≠ [] := by
  intro he
  obtain ⟨p, hp, names, hn, _, hrhs⟩ := exists_of_mem_rulesOf hr
  rw [he] at hrhs
  rw [List.map_eq_nil_iff.mp hrhs.symm] at hn
  exact (hps p hp).nil_not_mem hn

/-- The end of input has a reserved name, which no production mentions. -/
theorem endOfInput_not_mem_of_mem_rulesOf {r : Rule} (hr : r ∈ rulesOf (alphabetOf ps) ps) :
    Code.endOfInput ∉ r.rhs := by
  intro hc
  obtain ⟨p, hp, name, hright, hname, hcode⟩ := exists_name_of_mem_rhs hr hc
  have hback := Alphabet.name_code hname
  rw [hcode, (Alphabet.name_of_base_prefix (base_prefix_alphabetOf ps)).2] at hback
  have hreserved := (hps p hp).not_reserved name hright
  rw [← hback] at hreserved
  exact absurd hreserved (by decide)

/-- A nonterminal is the left side of a production, or it is used on a right side and then defined
as well. -/
theorem exists_rule_of_isNonterminal (hu : firstUndefined? ps = none) {c : Code}
    (hc : (alphabetOf ps).isNonterminal c = true) :
    ∃ r ∈ rulesOf (alphabetOf ps) ps, r.lhs = c := by
  have hlt := Alphabet.lt_size_of_isNonterminal hc
  have hkind : SymbolKind.ofName ((alphabetOf ps).name c) = .nonterminal := by
    simpa [Alphabet.isNonterminal, Alphabet.kind] using hc
  have huse : ∃ p ∈ ps, p.lhs = (alphabetOf ps).name c := by
    rcases mem_alphabetOf.mp (Alphabet.name_mem hlt) with hb | ⟨p, hp, hl | hr⟩
    · have hterm : ∀ name ∈ Alphabet.base.names, SymbolKind.ofName name = .terminal := by decide
      rw [hterm _ hb] at hkind
      cases hkind
    · exact ⟨p, hp, hl.symm⟩
    · exact firstUndefined?_eq_none.mp hu p hp _ hr hkind
  obtain ⟨p, hp, hl⟩ := huse
  obtain ⟨names, hn⟩ := List.exists_mem_of_ne_nil _ (hps p hp).alternatives_ne_nil
  obtain ⟨r, hr, hrl⟩ := exists_mem_rulesOf (alphabetOf ps) hp hn
  exact ⟨r, hr, by rw [hrl, hl, Alphabet.code_name (nodup_alphabetOf ps) hlt]⟩

end

/-- Productions give a grammar exactly if there are any, and none of their references is undefined:
the grammar has their symbols, their alternatives as rules, and the left side of the first one as its
start. -/
theorem ofProductions_eq_ok {ps : List Production} {g : Grammar} :
    ofProductions ps = .ok g ↔ ∃ first others, ps = first :: others ∧ firstUndefined? ps = none ∧
      g = ⟨alphabetOf ps, rulesOf (alphabetOf ps) ps, (alphabetOf ps).code first.lhs⟩ := by
  cases ps with
  | nil => simp [ofProductions]
  | cons first others =>
    simp only [ofProductions]
    cases hu : firstUndefined? (first :: others) with
    | none => simp [eq_comm]
    | some use => simp

/-- Well-formed productions without undefined references give a well-formed grammar. -/
theorem wellFormed_of_ofProductions {ps : List Production} (hps : ∀ p ∈ ps, p.WellFormed)
    {g : Grammar} (h : ofProductions ps = .ok g) : g.WellFormed := by
  obtain ⟨first, others, rfl, hu, rfl⟩ := ofProductions_eq_ok.mp h
  constructor
  case nodup => exact nodup_alphabetOf _
  case base => exact base_prefix_alphabetOf _
  case number =>
    intro i r hr
    rw [getElem?_rulesOf, Option.map_eq_some_iff] at hr
    obtain ⟨_, _, rfl⟩ := hr
    rfl
  case lhs_nonterminal => exact fun r hr => isNonterminal_lhs_of_mem_rulesOf hps hr
  case rhs_ne_nil => exact fun r hr => rhs_ne_nil_of_mem_rulesOf hps hr
  case rhs_lt =>
    intro r hr c hc
    obtain ⟨_, _, name, _, hname, rfl⟩ := exists_name_of_mem_rhs hr hc
    exact Alphabet.code_lt hname
  case endOfInput_not_mem => exact fun r hr => endOfInput_not_mem_of_mem_rulesOf hps hr
  case defined => exact fun c hc => exists_rule_of_isNonterminal hps hu hc
  case start =>
    obtain ⟨names, others', ha⟩ :=
      List.exists_cons_of_ne_nil (hps first (List.mem_cons_self ..)).alternatives_ne_nil
    rw [List.head?_eq_getElem?, getElem?_rulesOf, branches, List.flatMap_cons, ha]
    rfl

/-- Every grammar that is read from a text is well formed. -/
theorem wellFormed_of_ofText {text : String} {g : Grammar} (h : ofText text = .ok g) :
    g.WellFormed := by
  simp only [ofText, bind_eq_ok] at h
  obtain ⟨ps, hps, hg⟩ := h
  exact wellFormed_of_ofProductions (wellFormed_of_readProductions hps) hg

namespace WellFormed

variable {g : Grammar}

theorem isTerminal_epsilon (wf : g.WellFormed) : g.alphabet.isTerminal Code.epsilon = true := by
  rw [Alphabet.isTerminal, Alphabet.kind, (Alphabet.name_of_base_prefix wf.base).1]
  decide

theorem isTerminal_endOfInput (wf : g.WellFormed) :
    g.alphabet.isTerminal Code.endOfInput = true := by
  rw [Alphabet.isTerminal, Alphabet.kind, (Alphabet.name_of_base_prefix wf.base).2]
  decide

theorem endOfInput_lt (wf : g.WellFormed) : Code.endOfInput < g.alphabet.size :=
  Nat.lt_of_lt_of_le (by decide) wf.base.length_le

theorem epsilon_lt (wf : g.WellFormed) : Code.epsilon < g.alphabet.size :=
  Nat.zero_lt_of_lt wf.endOfInput_lt

/-- The rule of a number is the one that carries it. -/
theorem rule?_number (wf : g.WellFormed) {r : Rule} (h : r ∈ g.rules) :
    g.rule? r.number = some r := by
  obtain ⟨i, hi⟩ := List.getElem?_of_mem h
  rw [wf.number i r hi]
  exact hi

theorem lhs_lt (wf : g.WellFormed) {r : Rule} (h : r ∈ g.rules) : r.lhs < g.alphabet.size :=
  Alphabet.lt_size_of_isNonterminal (wf.lhs_nonterminal r h)

/-- The start symbol is a nonterminal. -/
theorem isNonterminal_start (wf : g.WellFormed) : g.alphabet.isNonterminal g.start = true := by
  obtain ⟨r, hr, hs⟩ := Option.map_eq_some_iff.mp wf.start
  rw [← hs]
  exact wf.lhs_nonterminal r (List.mem_of_head? hr)

/-- A nonterminal is no marker of the empty word. -/
theorem ne_epsilon_of_isNonterminal (wf : g.WellFormed) {c : Code}
    (h : g.alphabet.isNonterminal c = true) : c ≠ Code.epsilon := by
  rintro rfl
  have ht := wf.isTerminal_epsilon
  rw [Alphabet.isTerminal_eq_false.mpr h] at ht
  cases ht

/-- A nonterminal is not the end of input. -/
theorem ne_endOfInput_of_isNonterminal (wf : g.WellFormed) {c : Code}
    (h : g.alphabet.isNonterminal c = true) : c ≠ Code.endOfInput := by
  rintro rfl
  have ht := wf.isTerminal_endOfInput
  rw [Alphabet.isTerminal_eq_false.mpr h] at ht
  cases ht

end WellFormed

end Grammar

end PredictiveFrontend

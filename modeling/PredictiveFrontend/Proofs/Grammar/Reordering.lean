import PredictiveFrontend.Proofs.Grammar.Loading
import PredictiveFrontend.Proofs.Grammar.Reloading
import Mathlib.Data.List.Perm.Basic

/-!
# The order of lines

The lines of a grammar text can be put in any order as long as the left side of the first one stays
first. The text is read as a grammar in every order or in none, and all the grammars that are read
have the same names, the same alternatives up to their order, and the same start. Only the codes of
the symbols and the numbers of the rules depend on the order.
-/

namespace PredictiveFrontend

/-! ### What a line says -/

namespace Production

/-- What a production says, wherever it stands. -/
def body (p : Production) : String × List (List String) :=
  (p.lhs, p.alternatives)

variable {p q : Production} {number : Nat} {line : List Char}

/-- A line says the same under every number. -/
theorem StandsOn.renumber (h : p.StandsOn number line) (number' : Nat) :
    StandsOn ⟨number', p.lhs, p.alternatives⟩ number' line := by
  obtain ⟨-, hread⟩ := ofTokens_eq_ok.mp h.read
  exact ⟨ofTokens_eq_ok.mpr ⟨rfl, hread⟩, h.lhs_not_reserved, h.lhs_nonterminal,
    h.right_not_reserved⟩

theorem StandsOn.body_eq {number' : Nat} (h : p.StandsOn number line)
    (h' : q.StandsOn number' line) : p.body = q.body := by
  obtain rfl := Except.ok.inj ((h.renumber number').read.symm.trans h'.read)
  rfl

end Production

namespace Grammar

open Production (StandsOn)

/-- The lines of a text that are not blank and no remarks, in order and without their endings. -/
def productionTexts (text : String) : List (List Char) :=
  (Text.bareLines text.toList).filter fun line => !Production.isIgnorable line

/-- What a line says, if a production stands on it. -/
def HasBody (line : List Char) (body : String × List (List String)) : Prop :=
  ∃ number p, StandsOn p number line ∧ p.body = body

theorem hasBody_rightUnique : Relator.RightUnique HasBody := by
  rintro line _ _ ⟨number, p, hp, rfl⟩ ⟨number', q, hq, rfl⟩
  exact hp.body_eq hq

variable {text text' : String}

theorem mem_productionTexts {line : List Char} :
    line ∈ productionTexts text ↔ ∃ number, IsProductionLine text number line := by
  rw [productionTexts, List.mem_filter, List.mem_iff_getElem?, Bool.not_eq_true']
  simp only [IsProductionLine, Text.lineAt_iff]
  constructor
  · rintro ⟨⟨i, hi⟩, hheld⟩
    exact ⟨i + 1, ⟨i, rfl, hi⟩, hheld⟩
  · rintro ⟨_, ⟨i, -, hi⟩, hheld⟩
    exact ⟨⟨i, hi⟩, hheld⟩

/-- The lines from which productions are read are these lines, but for their endings. -/
theorem forall₂_productionLines (text : String) :
    List.Forall₂ (fun line l => Text.IsLeftOf line l.2) (productionTexts text)
      (productionLines (numberedLines text)) := by
  have hlines : (numberedLines text).map Prod.snd = Text.lines text.toList := by
    rw [numberedLines, List.map_map]
    exact List.zipIdx_map_fst 0 _
  have hall := Text.forall₂_bareLines text.toList
  rw [← hlines, List.forall₂_map_right_iff] at hall
  refine List.rel_filter ?_ hall
  intro line l hleft
  simp only [Production.isIgnorable_of_isLeftOf hleft]

/-- The productions of a text are what its lines say, in the same order. -/
theorem forall₂_hasBody {ps : List Production} (h : readProductions (numberedLines text) = .ok ps) :
    List.Forall₂ HasBody (productionTexts text) (ps.map Production.body) := by
  rw [List.forall₂_map_right_iff]
  have hstands := readProductions_eq_ok_iff.mp h
  have hlines := forall₂_productionLines text
  generalize productionTexts text = lines, productionLines (numberedLines text) = ls
    at hlines hstands
  clear h
  induction hlines generalizing ps with
  | nil =>
    cases hstands
    exact .nil
  | cons hleft _ ih =>
    cases hstands with
    | cons hp hrest =>
      exact .cons ⟨_, _, (Production.standsOn_of_isLeftOf hleft).mp hp, rfl⟩ (ih hrest)

/-- Productions are read from a text exactly if every line says something. -/
theorem exists_readProductions_iff_hasBody : (∃ ps, readProductions (numberedLines text) = .ok ps) ↔
    ∀ line ∈ productionTexts text, ∃ body, HasBody line body := by
  rw [exists_readProductions_iff]
  constructor
  · intro h line hline
    obtain ⟨number, hnumber⟩ := mem_productionTexts.mp hline
    obtain ⟨p, hp⟩ := h number line hnumber
    exact ⟨p.body, number, p, hp, rfl⟩
  · intro h number line hline
    obtain ⟨_, number', p, hp, -⟩ := h line (mem_productionTexts.mpr ⟨number, hline⟩)
    exact ⟨_, hp.renumber number⟩

/-! ### What the lines say -/

section

variable (hlines : (productionTexts text).Perm (productionTexts text'))
include hlines

theorem exists_readProductions_of_perm (h : ∃ ps, readProductions (numberedLines text) = .ok ps) :
    ∃ ps, readProductions (numberedLines text') = .ok ps := by
  rw [exists_readProductions_iff_hasBody] at h ⊢
  exact fun line hline => h line (hlines.mem_iff.mpr hline)

/-- The productions say the same in another order, so their alternatives are the same. -/
theorem perm_branches {ps ps' : List Production}
    (h : readProductions (numberedLines text) = .ok ps)
    (h' : readProductions (numberedLines text') = .ok ps') :
    (branches ps).Perm (branches ps') := by
  have hbodies : (ps.map Production.body).Perm (ps'.map Production.body) :=
    List.rel_perm_imp hasBody_rightUnique (forall₂_hasBody h) (forall₂_hasBody h') hlines
  have hbranches : ∀ qs : List Production, branches qs =
      (qs.map Production.body).flatMap fun body => body.2.map fun names => (body.1, names) := by
    intro qs
    rw [List.flatMap_map]
    rfl
  rw [hbranches, hbranches]
  exact hbodies.flatMap_right _

end

/-- Alternatives are those of a grammar exactly if there are any and their nonterminals are left
sides. -/
theorem exists_hasBranches_iff {bs : List Branch} : (∃ g : Grammar, g.HasBranches bs) ↔ bs ≠ [] ∧
    ∀ b ∈ bs, ∀ name ∈ b.2, SymbolKind.ofName name = .nonterminal → ∃ b' ∈ bs, b'.1 = name := by
  constructor
  · rintro ⟨g, hg⟩
    refine ⟨?_, hg.defined⟩
    rintro rfl
    cases hg.start
  · rintro ⟨hne, hdefined⟩
    obtain ⟨first, others, rfl⟩ := List.exists_cons_of_ne_nil hne
    let a := Alphabet.base.internAll ((first :: others).flatMap Branch.names)
    let rules : List Rule := (first :: others).zipIdx.map fun entry =>
      ⟨entry.2, a.code entry.1.1, entry.1.2.map a.code⟩
    exact ⟨⟨a, rules, a.code first.1⟩, rfl, rfl, rfl, hdefined⟩

/-- The name that the first line has on its left side. -/
def StartsWith (text : String) (name : String) : Prop :=
  ∃ line alternatives, (productionTexts text).head? = some line ∧ HasBody line (name, alternatives)

theorem StartsWith.unique {name name' : String} (h : StartsWith text name)
    (h' : StartsWith text name') : name = name' := by
  obtain ⟨line, alternatives, hline, hbody⟩ := h
  obtain ⟨line', alternatives', hline', hbody'⟩ := h'
  obtain rfl := Option.some.inj (hline.symm.trans hline')
  exact congrArg Prod.fst (hasBody_rightUnique hbody hbody')

/-- Two grammars in which only the order of the alternatives differs. -/
structure Reorders (g g' : Grammar) : Prop where
  wellFormed : g.WellFormed
  wellFormed' : g'.WellFormed
  names : ∀ name, name ∈ g.alphabet.names ↔ name ∈ g'.alphabet.names
  branches : (g.rules.map g.branch).Perm (g'.rules.map g'.branch)
  start : g.alphabet.name g.start = g'.alphabet.name g'.start

theorem Reorders.symm {g g' : Grammar} (h : Reorders g g') : Reorders g' g :=
  ⟨h.wellFormed', h.wellFormed, fun name => (h.names name).symm, h.branches.symm, h.start.symm⟩

theorem HasBranches.mem_names {g : Grammar} {bs : List Branch} (h : g.HasBranches bs)
    {name : String} : name ∈ g.alphabet.names ↔
      name ∈ Alphabet.base.names ∨ ∃ b ∈ bs, name ∈ b.names := by
  rw [h.alphabet, Alphabet.mem_names_internAll, List.mem_flatMap]

/-- The start of a grammar is the left side of its first alternative. -/
theorem HasBranches.name_start {g : Grammar} {bs : List Branch} (h : g.HasBranches bs) :
    bs.head?.map Prod.fst = some (g.alphabet.name g.start) := by
  cases bs with
  | nil => cases h.start
  | cons first others =>
    have hmem : first.1 ∈ g.alphabet.names := by
      rw [h.mem_names]
      exact .inr ⟨first, List.mem_cons_self .., List.mem_cons_self ..⟩
    have hcode : g.alphabet.code first.1 = g.start := Option.some.inj h.start
    rw [← hcode, Alphabet.name_code hmem]
    rfl

/-- The first line has the start of the grammar on its left side. -/
theorem startsWith_start {g : Grammar} (h : ofText text = .ok g) :
    StartsWith text (g.alphabet.name g.start) := by
  obtain ⟨ps, hps, hbranches⟩ := ofText_eq_ok_iff.mp h
  have hhead := hbranches.name_start
  rw [head?_branches fun p hp => (wellFormed_of_readProductions hps p hp).alternatives_ne_nil]
    at hhead
  cases ps with
  | nil => cases hhead
  | cons p ps =>
    obtain ⟨line, others, hbody, -, hline⟩ := List.forall₂_cons_right_iff.mp (forall₂_hasBody hps)
    rw [← Option.some.inj hhead]
    exact ⟨line, p.alternatives, by rw [hline]; rfl, hbody⟩

/-- A text that is read as a grammar is read in every order of its lines. -/
theorem exists_ofText_of_perm (hlines : (productionTexts text).Perm (productionTexts text'))
    (h : ∃ g, ofText text = .ok g) : ∃ g, ofText text' = .ok g := by
  obtain ⟨g, hg⟩ := h
  obtain ⟨ps, hps, hbranches⟩ := ofText_eq_ok_iff.mp hg
  obtain ⟨ps', hps'⟩ := exists_readProductions_of_perm hlines ⟨ps, hps⟩
  have hperm := perm_branches hlines hps hps'
  obtain ⟨hne, hdefined⟩ := exists_hasBranches_iff.mp ⟨g, hbranches⟩
  have hne' : branches ps' ≠ [] := fun hnil => hne (hnil ▸ hperm).eq_nil
  simp only [hperm.mem_iff] at hdefined
  obtain ⟨g', hbranches'⟩ := exists_hasBranches_iff.mpr ⟨hne', hdefined⟩
  exact ⟨g', ofText_eq_ok_iff.mpr ⟨ps', hps', hbranches'⟩⟩

/-- The grammars that are read from lines in two orders have the same alternatives. -/
theorem reorders_of_perm (hlines : (productionTexts text).Perm (productionTexts text'))
    (hstart : ∀ name name', StartsWith text name → StartsWith text' name' → name = name')
    {g g' : Grammar} (hg : ofText text = .ok g) (hg' : ofText text' = .ok g') : Reorders g g' := by
  obtain ⟨ps, hps, hbranches⟩ := ofText_eq_ok_iff.mp hg
  obtain ⟨ps', hps', hbranches'⟩ := ofText_eq_ok_iff.mp hg'
  have hperm := perm_branches hlines hps hps'
  constructor
  case wellFormed => exact wellFormed_of_ofText hg
  case wellFormed' => exact wellFormed_of_ofText hg'
  case names =>
    intro name
    rw [hbranches.mem_names, hbranches'.mem_names]
    simp only [hperm.mem_iff]
  case branches =>
    rw [hbranches.map_branch, hbranches'.map_branch]
    exact hperm
  case start => exact hstart _ _ (startsWith_start hg) (startsWith_start hg')

end Grammar

end PredictiveFrontend

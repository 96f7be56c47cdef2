import PredictiveFrontend.Proofs.Grammar.Conflict
import PredictiveFrontend.Proofs.Grammar.Reordering
import Mathlib.Data.List.Pairwise

/-!
# Symbols under other codes

Where only the order of alternatives differs, every symbol of one grammar is one of the other under
another code, and every rule is one under another number. Derivations are carried over symbol by
symbol, and with them all that is exact for derivations: the FIRST and FOLLOW sets, the terminals
that predict a rule, and whether any terminal predicts two rules of one nonterminal.
-/

namespace PredictiveFrontend

namespace Grammar

/-- The code that a symbol of one grammar has in another one. -/
def recode (g g' : Grammar) (c : Code) : Code :=
  g'.alphabet.code (g.alphabet.name c)

namespace Reorders

variable {g g' : Grammar} (h : Reorders g g')
include h

/-! ### Symbols -/

theorem name_recode {c : Code} (hc : c < g.alphabet.size) :
    g'.alphabet.name (g.recode g' c) = g.alphabet.name c :=
  Alphabet.name_code ((h.names _).mp (Alphabet.name_mem hc))

theorem recode_lt {c : Code} (hc : c < g.alphabet.size) : g.recode g' c < g'.alphabet.size :=
  Alphabet.code_lt ((h.names _).mp (Alphabet.name_mem hc))

/-- A symbol of the other grammar is found by its name. -/
theorem recode_eq_of_name_eq {c c' : Code} (hc' : c' < g'.alphabet.size)
    (hname : g.alphabet.name c = g'.alphabet.name c') : g.recode g' c = c' := by
  rw [recode, hname, Alphabet.code_name h.wellFormed'.nodup hc']

theorem recode_recode {c : Code} (hc : c < g.alphabet.size) :
    g'.recode g (g.recode g' c) = c :=
  h.symm.recode_eq_of_name_eq hc (h.name_recode hc)

/-- A name is found under the other code, or in none of the grammars. -/
theorem code?_recode (name : String) :
    g'.alphabet.code? name = (g.alphabet.code? name).map (g.recode g') := by
  cases hcode : g.alphabet.code? name with
  | none =>
    have hmem : name ∉ g'.alphabet.names := by
      rw [← h.names]
      exact List.idxOf?_eq_none_iff.mp hcode
    exact List.idxOf?_eq_none_iff.mpr hmem
  | some c =>
    obtain ⟨hlt, rfl⟩ := Alphabet.name_of_code? hcode
    rw [← h.name_recode hlt]
    exact Alphabet.code?_name h.wellFormed'.nodup (h.recode_lt hlt)

theorem recode_epsilon : g.recode g' Code.epsilon = Code.epsilon := by
  apply h.recode_eq_of_name_eq h.wellFormed'.epsilon_lt
  rw [(Alphabet.name_of_base_prefix h.wellFormed.base).1,
    (Alphabet.name_of_base_prefix h.wellFormed'.base).1]

theorem recode_endOfInput : g.recode g' Code.endOfInput = Code.endOfInput := by
  apply h.recode_eq_of_name_eq h.wellFormed'.endOfInput_lt
  rw [(Alphabet.name_of_base_prefix h.wellFormed.base).2,
    (Alphabet.name_of_base_prefix h.wellFormed'.base).2]

theorem recode_start : g.recode g' g.start = g'.start :=
  h.recode_eq_of_name_eq (Alphabet.lt_size_of_isNonterminal h.wellFormed'.isNonterminal_start)
    h.start

/-- Different symbols have different codes. -/
theorem recode_inj {c d : Code} (hc : c < g.alphabet.size) (hd : d < g.alphabet.size) :
    g.recode g' c = g.recode g' d ↔ c = d := by
  refine ⟨fun he => ?_, congrArg _⟩
  rw [← h.recode_recode hc, he, h.recode_recode hd]

theorem isTerminal_recode {c : Code} (hc : c < g.alphabet.size) :
    g'.alphabet.isTerminal (g.recode g' c) = g.alphabet.isTerminal c := by
  simp only [Alphabet.isTerminal, Alphabet.kind, h.name_recode hc]

theorem isNonterminal_recode {c : Code} (hc : g.alphabet.isNonterminal c = true) :
    g'.alphabet.isNonterminal (g.recode g' c) = true := by
  rw [← Alphabet.isTerminal_eq_false] at hc ⊢
  rwa [h.isTerminal_recode (Alphabet.lt_size_of_isNonterminal (Alphabet.isTerminal_eq_false.mp hc))]

theorem sententialForm_map_recode {symbols : List Code}
    (hs : ∀ c ∈ symbols, c < g.alphabet.size) :
    sententialForm (symbols.map (g.recode g')) = (sententialForm symbols).map (g.recode g') := by
  rw [sententialForm, List.filter_map]
  apply congrArg
  apply List.filter_congr
  intro c hc
  have heps := h.recode_inj (hs c hc) h.wellFormed.epsilon_lt
  rw [h.recode_epsilon] at heps
  simp [Function.comp_apply, bne, heps]

/-! ### Rules -/

/-- Rules that are one alternative have the same symbols. -/
theorem eq_of_branch_eq {r r' : Rule} (hr' : r' ∈ g'.rules)
    (hbranch : g'.branch r' = g.branch r) :
    r'.lhs = g.recode g' r.lhs ∧ r'.rhs = r.rhs.map (g.recode g') := by
  have wf' := h.wellFormed'
  obtain ⟨hlhs, hrhs⟩ := Prod.mk.inj hbranch
  refine ⟨(h.recode_eq_of_name_eq (wf'.lhs_lt hr') hlhs.symm).symm, ?_⟩
  have hback : (r'.rhs.map g'.alphabet.name).map g'.alphabet.code = r'.rhs := by
    rw [List.map_map]
    refine (List.map_congr_left fun c hc => ?_).trans (List.map_id _)
    exact Alphabet.code_name wf'.nodup (wf'.rhs_lt r' hr' c hc)
  rw [← hback, hrhs, List.map_map]
  rfl

/-- Every rule is one of the other grammar. -/
theorem exists_rule {r : Rule} (hr : r ∈ g.rules) :
    ∃ r' ∈ g'.rules, g'.branch r' = g.branch r :=
  List.mem_map.mp (h.branches.mem_iff.mp (List.mem_map_of_mem hr))

theorem expansion_eq {r r' : Rule} (hr : r ∈ g.rules) (hr' : r' ∈ g'.rules)
    (hbranch : g'.branch r' = g.branch r) :
    r'.expansion = r.expansion.map (g.recode g') := by
  have hform := h.sententialForm_map_recode (h.wellFormed.rhs_lt r hr)
  rw [← (h.eq_of_branch_eq hr' hbranch).2] at hform
  exact hform

/-! ### Derivations -/

theorem yields_recode {u v : List Code} (hy : g.Yields u v) :
    g'.Yields (u.map (g.recode g')) (v.map (g.recode g')) := by
  obtain ⟨r, before, after, hr⟩ := hy
  obtain ⟨r', hr', hbranch⟩ := h.exists_rule hr
  have happly := Yields.apply r' (before.map (g.recode g')) (after.map (g.recode g')) hr'
  rw [(h.eq_of_branch_eq hr' hbranch).1, h.expansion_eq hr hr' hbranch] at happly
  simpa only [List.map_append, List.map_cons] using happly

/-- What is derived is derived under the other codes. -/
theorem derives_recode {u v : List Code} (hd : g.Derives u v) :
    g'.Derives (u.map (g.recode g')) (v.map (g.recode g')) := by
  induction hd with
  | refl => exact .refl
  | tail _ hy ih => exact ih.tail (h.yields_recode hy)

/-- FIRST sets are carried over. -/
theorem mem_first_recode {symbols : List Code} (hs : ∀ c ∈ symbols, c < g.alphabet.size) {t : Code}
    (ht : t ∈ First.ofSequence g.first symbols) :
    g.recode g' t ∈ First.ofSequence g'.first (symbols.map (g.recode g')) := by
  have wf := h.wellFormed
  have hs' : ∀ c ∈ symbols.map (g.recode g'), c < g'.alphabet.size :=
    List.forall_mem_map.mpr fun c hc => h.recode_lt (hs c hc)
  by_cases he : t = Code.epsilon
  · subst he
    have hd := h.derives_recode ((epsilon_mem_first_iff wf).mp ht)
    rw [← h.sententialForm_map_recode hs] at hd
    rw [h.recode_epsilon]
    exact (epsilon_mem_first_iff h.wellFormed').mpr hd
  · have hlt := CodeSet.lt_of_mem ht
    have hterminal := (First.sound_first wf).isTerminal_ofSequence wf ht
    obtain ⟨rest, hd⟩ := (mem_first_iff wf hs hterminal he).mp ht
    have hd' := h.derives_recode hd
    rw [← h.sententialForm_map_recode hs] at hd'
    refine (mem_first_iff h.wellFormed' hs' ?_ ?_).mpr ⟨_, hd'⟩
    · rwa [h.isTerminal_recode hlt]
    · rwa [← h.recode_epsilon, Ne, h.recode_inj hlt wf.epsilon_lt]

theorem follows_recode {c t : Code} (hf : g.Follows c t) :
    g'.Follows (g.recode g' c) (g.recode g' t) := by
  rcases hf with ⟨d, before, after, hd, hform⟩ | ⟨rfl, before, hform⟩
  · have hform' := h.derives_recode hform
    rw [List.map_append] at hform'
    exact .inl ⟨_, _, _, h.isNonterminal_recode hd, hform'⟩
  · have hform' := h.derives_recode hform
    rw [List.map_append, List.map_singleton, h.recode_start] at hform'
    exact .inr ⟨h.recode_endOfInput, _, hform'⟩

/-- FOLLOW sets of nonterminals are carried over. -/
theorem mem_follow_recode {c t : Code} (hc : g.alphabet.isNonterminal c = true)
    (ht : t ∈ (g.follow .fixedPoint g.first).get c) :
    g.recode g' t ∈ (g'.follow .fixedPoint g'.first).get (g.recode g' c) := by
  have hterminal := (Follow.isTerminal_of_mem_followFixedPoint h.wellFormed ht).1
  have hterminal' : g'.alphabet.isTerminal (g.recode g' t) = true := by
    rwa [h.isTerminal_recode (CodeSet.lt_of_mem ht)]
  have hfollows := (mem_follow_fixedPoint_iff h.wellFormed hc hterminal).mp ht
  exact (mem_follow_fixedPoint_iff h.wellFormed' (h.isNonterminal_recode hc) hterminal').mpr
    (h.follows_recode hfollows)

/-- A terminal that predicts a rule predicts it under the other number. -/
theorem mem_predict_recode {r r' : Rule} (hr : r ∈ g.rules) (hr' : r' ∈ g'.rules)
    (hbranch : g'.branch r' = g.branch r) {t : Code}
    (ht : t ∈ r.predict g.first (g.follow .fixedPoint g.first)) :
    g.recode g' t ∈ r'.predict g'.first (g'.follow .fixedPoint g'.first) := by
  have wf := h.wellFormed
  obtain ⟨hlhs, hrhs⟩ := h.eq_of_branch_eq hr' hbranch
  rw [Rule.mem_predict, hlhs, hrhs]
  rcases Rule.mem_predict.mp ht with ⟨hfirst, hne⟩ | ⟨he, hfollow⟩
  · refine .inl ⟨h.mem_first_recode (wf.rhs_lt r hr) hfirst, ?_⟩
    rwa [← h.recode_epsilon, Ne, h.recode_inj (CodeSet.lt_of_mem hfirst) wf.epsilon_lt]
  · have he' := h.mem_first_recode (wf.rhs_lt r hr) he
    rw [h.recode_epsilon] at he'
    exact .inr ⟨he', h.mem_follow_recode (wf.lhs_nonterminal r hr) hfollow⟩

end Reorders

/-! ### Conflicts -/

/-- No terminal predicts a rule for each of two alternatives. -/
def Separates (g : Grammar) (b b' : Branch) : Prop :=
  ∀ r ∈ g.rules, ∀ r' ∈ g.rules, g.branch r = b → g.branch r' = b' → r.lhs = r'.lhs →
    ∀ t ∈ r.predict g.first (g.follow .fixedPoint g.first),
      t ∉ r'.predict g.first (g.follow .fixedPoint g.first)

instance (g : Grammar) : Std.Symm g.Separates where
  symm _ _ h := fun r hr r' hr' hb hb' hlhs t ht ht' => h r' hr' r hr hb' hb hlhs.symm t ht' ht

/-- Rules that are one alternative are predicted by the same terminals. -/
theorem mem_predict_of_branch_eq {g : Grammar} (wf : g.WellFormed) {r r' : Rule} (hr : r ∈ g.rules)
    (hr' : r' ∈ g.rules) (hbranch : g.branch r' = g.branch r) {t : Code}
    (ht : t ∈ r.predict g.first (g.follow .fixedPoint g.first)) :
    t ∈ r'.predict g.first (g.follow .fixedPoint g.first) := by
  have hself : Reorders g g := ⟨wf, wf, fun _ => Iff.rfl, .refl _, rfl⟩
  have hmem := hself.mem_predict_recode hr hr' hbranch ht
  rwa [hself.recode_eq_of_name_eq (CodeSet.lt_of_mem ht) rfl] at hmem

theorem lhs_eq_of_branch_eq {g : Grammar} (wf : g.WellFormed) {r r' : Rule} (hr : r ∈ g.rules)
    (hr' : r' ∈ g.rules) (hbranch : g.branch r' = g.branch r) : r'.lhs = r.lhs := by
  rw [← Alphabet.code_name wf.nodup (wf.lhs_lt hr'), ← Alphabet.code_name wf.nodup (wf.lhs_lt hr)]
  exact congrArg g.alphabet.code (congrArg Prod.fst hbranch)

/-- There are no conflicts exactly if any two alternatives are told apart. -/
theorem ll1_iff_pairwise {g : Grammar} (wf : g.WellFormed) :
    g.LL1 .fixedPoint ↔ (g.rules.map g.branch).Pairwise g.Separates := by
  rw [List.pairwise_map]
  constructor
  · intro h
    refine wf.pairwise_number.imp_of_mem fun {r q} hr hq hlt => ?_
    intro r' hr' q' hq' hrbranch hqbranch hlhs t ht ht'
    have hne : r ≠ q := fun he => absurd hlt (he ▸ Nat.lt_irrefl _)
    have hsame : r.lhs = q.lhs := by
      rw [← lhs_eq_of_branch_eq wf hr hr' hrbranch, hlhs, lhs_eq_of_branch_eq wf hq hq' hqbranch]
    exact h r hr q hq hne hsame t (mem_predict_of_branch_eq wf hr' hr hrbranch.symm ht)
      (mem_predict_of_branch_eq wf hq' hq hqbranch.symm ht')
  · intro h r hr q hq hne
    have hsymm : Std.Symm fun r q => g.Separates (g.branch r) (g.branch q) :=
      ⟨fun _ _ => Std.Symm.symm _ _⟩
    exact h.forall hr hq hne r hr q hq rfl rfl

/-- Without conflicts in one order there are none in another one. -/
theorem Reorders.ll1 {g g' : Grammar} (h : Reorders g g') (hLL1 : g.LL1 .fixedPoint) :
    g'.LL1 .fixedPoint := by
  rw [ll1_iff_pairwise h.wellFormed] at hLL1
  rw [ll1_iff_pairwise h.wellFormed']
  have hpairwise := (h.branches.pairwise_iff fun hb => Std.Symm.symm _ _ hb).mp hLL1
  refine hpairwise.imp fun {b b'} hb r' hr' q' hq' hrb hqb hlhs t ht ht' => ?_
  obtain ⟨r, hr, hrbranch⟩ := h.symm.exists_rule hr'
  obtain ⟨q, hq, hqbranch⟩ := h.symm.exists_rule hq'
  have hsame : r.lhs = q.lhs := by
    rw [(h.symm.eq_of_branch_eq hr hrbranch).1, (h.symm.eq_of_branch_eq hq hqbranch).1, hlhs]
  exact hb r hr q hq (hrbranch.trans hrb) (hqbranch.trans hqb) hsame _
    (h.symm.mem_predict_recode hr' hr hrbranch ht) (h.symm.mem_predict_recode hq' hq hqbranch ht')

end Grammar

end PredictiveFrontend

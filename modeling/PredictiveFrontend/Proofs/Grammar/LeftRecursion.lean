import PredictiveFrontend.Proofs.Grammar.Derives
import Mathlib.Data.Finset.Card
import Mathlib.Data.Finset.Range

/-!
# Left recursion

A symbol leads to another one if applying a rule to it, and then any rules, brings the other one to
the front of a form. A symbol that leads to itself is left-recursive. Symbols that lead to each
other lead to the same symbols; one that is led to but does not lead back leads to fewer.
-/

namespace PredictiveFrontend

namespace Grammar

variable {g : Grammar} {c d e : Code}

/-- Applying rules, at least one, to a symbol brings another one to the front. -/
def LeadsTo (g : Grammar) (c d : Code) : Prop :=
  ∃ r ∈ g.rules, r.lhs = c ∧ ∃ rest, g.Derives r.expansion (d :: rest)

/-- A symbol comes to the front of a form that is derived from it in at least one step. -/
def LeftRecursive (g : Grammar) (c : Code) : Prop :=
  g.LeadsTo c c

/-- What is derived from a symbol is that symbol, or it is derived from the right side of one of its
rules. -/
theorem Derives.singleton_cases {form : List Code} (h : g.Derives [c] form) :
    form = [c] ∨ ∃ r ∈ g.rules, r.lhs = c ∧ g.Derives r.expansion form := by
  rcases h.cases_head with he | ⟨middle, hy, hd⟩
  · exact Or.inl he.symm
  · generalize hform : [c] = form' at hy
    obtain ⟨r, before, after, hr⟩ := hy
    have hlength := congrArg List.length hform
    simp only [List.length_append, List.length_cons, List.length_nil] at hlength
    obtain rfl : before = [] := List.length_eq_zero_iff.mp (by omega)
    obtain rfl : after = [] := List.length_eq_zero_iff.mp (by omega)
    obtain ⟨rfl, -⟩ := List.cons.inj hform
    rw [List.nil_append, List.append_nil] at hd
    exact Or.inr ⟨r, hr, rfl, hd⟩

namespace LeadsTo

/-- A symbol leads to every other one that comes to the front of a form derived from it. -/
theorem of_derives {rest : List Code} (h : g.Derives [c] (d :: rest)) (hne : d ≠ c) :
    g.LeadsTo c d := by
  rcases h.singleton_cases with he | ⟨r, hr, hl, hd⟩
  · exact absurd (List.cons.inj he).1 hne
  · exact ⟨r, hr, hl, rest, hd⟩

theorem trans (h : g.LeadsTo c d) (h' : g.LeadsTo d e) : g.LeadsTo c e := by
  obtain ⟨r, hr, hl, rest, hd⟩ := h
  obtain ⟨r', hr', rfl, rest', hd'⟩ := h'
  have hexpand : g.Derives [r'.lhs] (e :: rest') := (derives_of_mem_rules hr').trans hd'
  exact ⟨r, hr, hl, rest' ++ rest, hd.trans (hexpand.append_right rest)⟩

end LeadsTo

/-! ### An order on symbols -/

open Classical in
/-- A symbol and the symbols that it leads to. -/
noncomputable def leaders (g : Grammar) (c : Code) : Finset Code :=
  (Finset.range g.alphabet.size).filter fun d => d = c ∨ g.LeadsTo c d

open Classical in
theorem mem_leaders : d ∈ g.leaders c ↔ d < g.alphabet.size ∧ (d = c ∨ g.LeadsTo c d) := by
  rw [leaders, Finset.mem_filter, Finset.mem_range]

/-- A symbol that does not lead back leads to fewer symbols. -/
theorem card_leaders_lt (hc : c < g.alphabet.size) (h : g.LeadsTo c d) (hback : ¬g.LeadsTo d c) :
    (g.leaders d).card < (g.leaders c).card := by
  refine Finset.card_lt_card (Finset.ssubset_iff_of_subset ?_ |>.mpr ⟨c, ?_, ?_⟩)
  · intro e he
    obtain ⟨hlt, rfl | hlead⟩ := mem_leaders.mp he
    · exact mem_leaders.mpr ⟨hlt, Or.inr h⟩
    · exact mem_leaders.mpr ⟨hlt, Or.inr (h.trans hlead)⟩
  · exact mem_leaders.mpr ⟨hc, Or.inl rfl⟩
  · intro hm
    rcases (mem_leaders.mp hm).2 with rfl | hlead
    · exact hback h
    · exact hback hlead

end Grammar

end PredictiveFrontend

import PredictiveFrontend.Proofs.Grammar.Derives

/-!
# Leftmost derivations

What it means for rules to be applied leftmost, said without computing: a rule may be applied to a
form if only terminals stand in front of its left side. The functions that compute the form behind
some rules compute exactly this, so the form is unique where there is one, and rules that do not go
through have a first one that cannot be applied.
-/

namespace PredictiveFrontend

namespace Grammar

/-- The rule of a number is applied to the first nonterminal of a form. -/
inductive YieldsLeftmost (g : Grammar) (number : Nat) : List Code → List Code → Prop where
  | apply {r : Rule} {before : List Code} (after : List Code) (hr : g.rule? number = some r)
    (hlhs : g.alphabet.isTerminal r.lhs = false)
    (hbefore : ∀ c ∈ before, g.alphabet.isTerminal c = true) :
    YieldsLeftmost g number (before ++ r.lhs :: after) (before ++ r.expansion ++ after)

/-- The rules of some numbers are applied one after the other, each to the first nonterminal. -/
inductive DerivesLeftmost (g : Grammar) : List Code → List Nat → List Code → Prop where
  | refl (form : List Code) : DerivesLeftmost g form [] form
  | head {form middle next : List Code} {number : Nat} {numbers : List Nat}
    (h : g.YieldsLeftmost number form middle) (hrest : DerivesLeftmost g middle numbers next) :
    DerivesLeftmost g form (number :: numbers) next

variable {g : Grammar}

theorem YieldsLeftmost.cons {c : Code} (hc : g.alphabet.isTerminal c = true) {number : Nat}
    {form next : List Code} (h : g.YieldsLeftmost number form next) :
    g.YieldsLeftmost number (c :: form) (c :: next) := by
  cases h with
  | @apply r before after hr hlhs hbefore =>
    have hread : ∀ d ∈ c :: before, g.alphabet.isTerminal d = true :=
      List.forall_mem_cons.mpr ⟨hc, hbefore⟩
    exact .apply after hr hlhs hread

/-- The form that is computed is the one that the rule yields. -/
theorem expandLeftmost?_eq_some_iff {number : Nat} {form next : List Code} :
    g.expandLeftmost? number form = some next ↔ g.YieldsLeftmost number form next := by
  constructor
  · intro h
    induction form generalizing next with
    | nil => cases h
    | cons c rest ih =>
      cases hc : g.alphabet.isTerminal c with
      | true =>
        rw [expandLeftmost?_cons_terminal hc, Option.map_eq_some_iff] at h
        obtain ⟨next, hnext, rfl⟩ := h
        exact (ih hnext).cons hc
      | false =>
        obtain ⟨r, hr, rfl, rfl⟩ := (expandLeftmost?_cons_nonterminal hc).mp h
        have hread : ∀ d ∈ ([] : List Code), g.alphabet.isTerminal d = true := by simp
        exact .apply rest hr hc hread
  · rintro ⟨after, hr, hlhs, hbefore⟩
    rw [expandLeftmost?_append_terminals hbefore,
      (expandLeftmost?_cons_nonterminal hlhs).mpr ⟨_, hr, rfl, rfl⟩]
    simp only [Option.map_some, List.append_assoc]

/-- The form that is computed is the one that the rules derive. -/
theorem deriveLeftmost?_eq_some_iff {numbers : List Nat} {form next : List Code} :
    g.deriveLeftmost? form numbers = some next ↔ g.DerivesLeftmost form numbers next := by
  constructor
  · intro h
    induction numbers generalizing form with
    | nil =>
      cases h
      exact .refl _
    | cons number numbers ih =>
      obtain ⟨middle, hmiddle, hnext⟩ := deriveLeftmost?_cons.mp h
      exact .head (expandLeftmost?_eq_some_iff.mp hmiddle) (ih hnext)
  · intro h
    induction h with
    | refl form => rfl
    | head h _ ih => exact deriveLeftmost?_cons.mpr ⟨_, expandLeftmost?_eq_some_iff.mpr h, ih⟩

/-- Rules that do not go through have a first one that cannot be applied. -/
theorem exists_of_deriveLeftmost?_eq_none {numbers : List Nat} {form : List Code}
    (h : g.deriveLeftmost? form numbers = none) :
    ∃ before number after middle, numbers = before ++ number :: after ∧
      g.DerivesLeftmost form before middle ∧ ∀ next, ¬ g.YieldsLeftmost number middle next := by
  induction numbers generalizing form with
  | nil => cases h
  | cons number numbers ih =>
    rw [deriveLeftmost?] at h
    cases hmiddle : g.expandLeftmost? number form with
    | none =>
      refine ⟨[], number, numbers, form, rfl, .refl form, fun next hnext => ?_⟩
      rw [expandLeftmost?_eq_some_iff.mpr hnext] at hmiddle
      cases hmiddle
    | some middle =>
      rw [hmiddle] at h
      obtain ⟨before, number', after, last, rfl, hlast, hstuck⟩ := ih h
      exact ⟨number :: before, number', after, last, rfl,
        .head (expandLeftmost?_eq_some_iff.mp hmiddle) hlast, hstuck⟩

/-- A form is all terminals, or it has a first nonterminal. -/
theorem terminals_or_exists_nonterminal (form : List Code) :
    (∀ c ∈ form, g.alphabet.isTerminal c = true) ∨
      ∃ read c rest, form = read ++ c :: rest ∧
        (∀ d ∈ read, g.alphabet.isTerminal d = true) ∧ g.alphabet.isTerminal c = false := by
  induction form with
  | nil => exact Or.inl (by simp)
  | cons c rest ih =>
    cases hc : g.alphabet.isTerminal c with
    | false => exact Or.inr ⟨[], c, rest, rfl, by simp, hc⟩
    | true =>
      rcases ih with hrest | ⟨read, d, rest, rfl, hread, hd⟩
      · exact Or.inl (List.forall_mem_cons.mpr ⟨hc, hrest⟩)
      · exact Or.inr ⟨c :: read, d, rest, rfl, List.forall_mem_cons.mpr ⟨hc, hread⟩, hd⟩

end Grammar

end PredictiveFrontend

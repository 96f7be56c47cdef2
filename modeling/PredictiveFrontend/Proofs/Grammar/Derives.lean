import PredictiveFrontend.Proofs.Grammar.WellFormed
import Mathlib.Logic.Relation

/-!
# Derivations

A sentential form is a list of symbols without markers of the empty word. A rule may be applied to
any nonterminal of a form; in a leftmost derivation it is always applied to the first one, so the
numbers of the rules determine the form they lead to. A word that is derived at all is derived
leftmost: derivations of a concatenation split, so the steps can be put into that order.
-/

namespace PredictiveFrontend

namespace Grammar

/-- A list of symbols as a sentential form: markers of the empty word stand for nothing. -/
def sententialForm (symbols : List Code) : List Code :=
  symbols.filter (· != Code.epsilon)

/-- One application of a rule, anywhere in a form. -/
inductive Yields (g : Grammar) : List Code → List Code → Prop where
  | apply (r : Rule) (before after : List Code) (h : r ∈ g.rules) :
    Yields g (before ++ r.lhs :: after) (before ++ r.expansion ++ after)

/-- Any number of applications of rules. -/
def Derives (g : Grammar) : List Code → List Code → Prop :=
  Relation.ReflTransGen g.Yields

/-- Apply the rule of a number to the first nonterminal of a form; nothing if there is none or the
rule is not one for it. -/
def expandLeftmost? (g : Grammar) (number : Nat) : List Code → Option (List Code)
  | [] => none
  | c :: rest =>
    if g.alphabet.isTerminal c then (g.expandLeftmost? number rest).map (c :: ·)
    else match g.rule? number with
      | some r => if r.lhs = c then some (r.expansion ++ rest) else none
      | none => none

/-- The form to which the leftmost derivation by the rules of some numbers leads. -/
def deriveLeftmost? (g : Grammar) (form : List Code) : List Nat → Option (List Code)
  | [] => some form
  | number :: numbers =>
    match g.expandLeftmost? number form with
    | some next => g.deriveLeftmost? next numbers
    | none => none

variable {g : Grammar}

@[simp] theorem sententialForm_append (u v : List Code) :
    sententialForm (u ++ v) = sententialForm u ++ sententialForm v :=
  List.filter_append _ _

theorem sententialForm_cons (c : Code) (rest : List Code) :
    sententialForm (c :: rest) = sententialForm [c] ++ sententialForm rest :=
  sententialForm_append [c] rest

theorem epsilon_not_mem_sententialForm (symbols : List Code) :
    Code.epsilon ∉ sententialForm symbols := by
  simp [sententialForm]

/-- A list without markers is a form as it stands. -/
theorem sententialForm_eq_self {symbols : List Code} (h : Code.epsilon ∉ symbols) :
    sententialForm symbols = symbols := by
  rw [sententialForm, List.filter_eq_self]
  intro c hc
  simp only [bne_iff_ne, ne_eq]
  rintro rfl
  exact h hc

/-! ### Derivations in context -/

theorem Yields.append_left {u v : List Code} (h : g.Yields u v) (before : List Code) :
    g.Yields (before ++ u) (before ++ v) := by
  obtain ⟨r, b, a, hr⟩ := h
  have hy := Yields.apply r (before ++ b) a hr
  simpa only [List.append_assoc] using hy

theorem Yields.append_right {u v : List Code} (h : g.Yields u v) (after : List Code) :
    g.Yields (u ++ after) (v ++ after) := by
  obtain ⟨r, b, a, hr⟩ := h
  have hy := Yields.apply r b (a ++ after) hr
  simpa only [List.append_assoc, List.cons_append] using hy

theorem Derives.append_right {u v : List Code} (h : g.Derives u v) (after : List Code) :
    g.Derives (u ++ after) (v ++ after) := by
  induction h with
  | refl => exact .refl
  | tail _ hy ih => exact ih.tail (hy.append_right after)

theorem Derives.append_left {u v : List Code} (h : g.Derives u v) (before : List Code) :
    g.Derives (before ++ u) (before ++ v) := by
  induction h with
  | refl => exact .refl
  | tail _ hy ih => exact ih.tail (hy.append_left before)

/-- A part of a form is derived further, whatever stands around it. -/
theorem Derives.in_context {u v : List Code} (h : g.Derives u v) (before after : List Code) :
    g.Derives (before ++ u ++ after) (before ++ v ++ after) :=
  (h.append_left before).append_right after

/-- A left side derives the right side of its rule. -/
theorem derives_of_mem_rules {r : Rule} (hr : r ∈ g.rules) : g.Derives [r.lhs] r.expansion := by
  have hy := Yields.apply r [] [] hr
  rw [List.nil_append, List.nil_append, List.append_nil] at hy
  exact .single hy

/-- What is true of the symbols of a form and of all right sides is true of every derived form. -/
theorem Derives.forall_mem {P : Code → Prop} (hr : ∀ r ∈ g.rules, ∀ c ∈ r.expansion, P c)
    {u v : List Code} (h : g.Derives u v) (hu : ∀ c ∈ u, P c) : ∀ c ∈ v, P c := by
  induction h with
  | refl => exact hu
  | tail _ hy ih =>
    obtain ⟨r, before, after, hm⟩ := hy
    intro c hc
    simp only [List.mem_append, List.mem_cons] at hc ih
    rcases hc with (hc | hc) | hc
    · exact ih c (Or.inl hc)
    · exact hr r hm c hc
    · exact ih c (Or.inr (Or.inr hc))

/-- No marker of the empty word enters a form. -/
theorem Derives.epsilon_not_mem {u v : List Code} (h : g.Derives u v)
    (hu : Code.epsilon ∉ u) : Code.epsilon ∉ v := by
  have hr : ∀ r ∈ g.rules, ∀ c ∈ r.expansion, c ≠ Code.epsilon := by
    rintro r _ c hc rfl
    exact epsilon_not_mem_sententialForm _ hc
  intro hv
  exact h.forall_mem hr (fun c hc he => hu (he ▸ hc)) _ hv rfl

/-- Forms stay inside the alphabet. -/
theorem Derives.lt_size (wf : g.WellFormed) {u v : List Code} (h : g.Derives u v)
    (hu : ∀ c ∈ u, c < g.alphabet.size) : ∀ c ∈ v, c < g.alphabet.size :=
  h.forall_mem (fun r hr c hc => wf.rhs_lt r hr c (List.mem_filter.mp hc).1) hu

/-! ### Leftmost derivations -/

theorem expandLeftmost?_cons_terminal {c : Code} (hc : g.alphabet.isTerminal c = true)
    (number : Nat) (rest : List Code) :
    g.expandLeftmost? number (c :: rest) = (g.expandLeftmost? number rest).map (c :: ·) := by
  rw [expandLeftmost?, if_pos hc]

/-- A rule applies to a leading nonterminal exactly if that is its left side. -/
theorem expandLeftmost?_cons_nonterminal {c : Code} (hc : g.alphabet.isTerminal c = false)
    {number : Nat} {rest next : List Code} :
    g.expandLeftmost? number (c :: rest) = some next ↔
      ∃ r, g.rule? number = some r ∧ r.lhs = c ∧ next = r.expansion ++ rest := by
  rw [expandLeftmost?, if_neg (by simp [hc])]
  cases hr : g.rule? number with
  | none => simp
  | some r =>
    by_cases hl : r.lhs = c
    · simp [hl, eq_comm]
    · simp [hl]

theorem expandLeftmost?_append_terminals {w : List Code}
    (hw : ∀ c ∈ w, g.alphabet.isTerminal c = true) (number : Nat) (form : List Code) :
    g.expandLeftmost? number (w ++ form) = (g.expandLeftmost? number form).map (w ++ ·) := by
  induction w with
  | nil => simp
  | cons c w ih =>
    rw [List.cons_append, expandLeftmost?_cons_terminal (hw c (List.mem_cons_self ..)),
      ih fun d hd => hw d (List.mem_cons_of_mem _ hd), Option.map_map]
    rfl

/-- A step inside a form is a step of the form with more behind it. -/
theorem expandLeftmost?_append {number : Nat} {form next : List Code}
    (h : g.expandLeftmost? number form = some next) (after : List Code) :
    g.expandLeftmost? number (form ++ after) = some (next ++ after) := by
  induction form generalizing next with
  | nil => cases h
  | cons c rest ih =>
    cases hc : g.alphabet.isTerminal c with
    | true =>
      rw [expandLeftmost?_cons_terminal hc, Option.map_eq_some_iff] at h
      obtain ⟨next', hn, rfl⟩ := h
      rw [List.cons_append, expandLeftmost?_cons_terminal hc, ih hn]
      rfl
    | false =>
      obtain ⟨r, hr, hl, rfl⟩ := (expandLeftmost?_cons_nonterminal hc).mp h
      rw [List.cons_append]
      exact (expandLeftmost?_cons_nonterminal hc).mpr ⟨r, hr, hl, List.append_assoc _ _ _⟩

/-- A leftmost step is a step. -/
theorem yields_of_expandLeftmost? {number : Nat} {form next : List Code}
    (h : g.expandLeftmost? number form = some next) : g.Yields form next := by
  induction form generalizing next with
  | nil => cases h
  | cons c rest ih =>
    cases hc : g.alphabet.isTerminal c with
    | true =>
      rw [expandLeftmost?_cons_terminal hc, Option.map_eq_some_iff] at h
      obtain ⟨next', hn, rfl⟩ := h
      exact (ih hn).append_left [c]
    | false =>
      obtain ⟨r, hr, rfl, rfl⟩ := (expandLeftmost?_cons_nonterminal hc).mp h
      exact Yields.apply r [] rest (List.mem_of_getElem? hr)

theorem deriveLeftmost?_cons {form next : List Code} {number : Nat} {numbers : List Nat} :
    g.deriveLeftmost? form (number :: numbers) = some next ↔
      ∃ middle, g.expandLeftmost? number form = some middle ∧
        g.deriveLeftmost? middle numbers = some next := by
  rw [deriveLeftmost?]
  cases g.expandLeftmost? number form <;> simp

/-- Leftmost derivations are put one behind the other. -/
theorem deriveLeftmost?_append {form next : List Code} {numbers more : List Nat} :
    g.deriveLeftmost? form (numbers ++ more) = some next ↔
      ∃ middle, g.deriveLeftmost? form numbers = some middle ∧
        g.deriveLeftmost? middle more = some next := by
  induction numbers generalizing form with
  | nil => simp [deriveLeftmost?]
  | cons number numbers ih =>
    rw [List.cons_append, deriveLeftmost?_cons]
    constructor
    · rintro ⟨middle, hm, hn⟩
      obtain ⟨last, hl, hx⟩ := ih.mp hn
      exact ⟨last, deriveLeftmost?_cons.mpr ⟨middle, hm, hl⟩, hx⟩
    · rintro ⟨last, hl, hx⟩
      obtain ⟨middle, hm, hn⟩ := deriveLeftmost?_cons.mp hl
      exact ⟨middle, hm, ih.mpr ⟨last, hn, hx⟩⟩

/-- A leftmost derivation is a derivation. -/
theorem derives_of_deriveLeftmost? {form next : List Code} {numbers : List Nat}
    (h : g.deriveLeftmost? form numbers = some next) : g.Derives form next := by
  induction numbers generalizing form with
  | nil =>
    cases h
    exact .refl
  | cons number numbers ih =>
    obtain ⟨middle, hm, hn⟩ := deriveLeftmost?_cons.mp h
    exact (ih hn).head (yields_of_expandLeftmost? hm)

/-- Nothing is derived from the empty form but itself. -/
theorem deriveLeftmost?_nil {next : List Code} {numbers : List Nat} :
    g.deriveLeftmost? [] numbers = some next ↔ numbers = [] ∧ next = [] := by
  cases numbers with
  | nil => simp [deriveLeftmost?, eq_comm]
  | cons number numbers => simp [deriveLeftmost?_cons, expandLeftmost?]

/-- Leading terminals stay as they are. -/
theorem deriveLeftmost?_append_terminals {w : List Code}
    (hw : ∀ c ∈ w, g.alphabet.isTerminal c = true) {form next : List Code} {numbers : List Nat} :
    g.deriveLeftmost? (w ++ form) numbers = some next ↔
      ∃ next', g.deriveLeftmost? form numbers = some next' ∧ next = w ++ next' := by
  induction numbers generalizing form with
  | nil => simp [deriveLeftmost?, eq_comm]
  | cons number numbers ih =>
    simp only [deriveLeftmost?_cons, expandLeftmost?_append_terminals hw, Option.map_eq_some_iff]
    constructor
    · rintro ⟨_, ⟨middle, hm, rfl⟩, hn⟩
      obtain ⟨next', hd, he⟩ := ih.mp hn
      exact ⟨next', ⟨middle, hm, hd⟩, he⟩
    · rintro ⟨next', ⟨middle, hm, hd⟩, he⟩
      exact ⟨w ++ middle, ⟨middle, hm, rfl⟩, ih.mpr ⟨next', hd, he⟩⟩

theorem deriveLeftmost?_cons_terminal {c : Code} (hc : g.alphabet.isTerminal c = true)
    {rest next : List Code} {numbers : List Nat} :
    g.deriveLeftmost? (c :: rest) numbers = some next ↔
      ∃ next', g.deriveLeftmost? rest numbers = some next' ∧ next = c :: next' :=
  deriveLeftmost?_append_terminals (w := [c]) (by simpa using hc)

/-- A leftmost derivation of a form goes through with more behind the form. -/
theorem deriveLeftmost?_append_right {form next : List Code} {numbers : List Nat}
    (h : g.deriveLeftmost? form numbers = some next) (after : List Code) :
    g.deriveLeftmost? (form ++ after) numbers = some (next ++ after) := by
  induction numbers generalizing form with
  | nil =>
    cases h
    rfl
  | cons number numbers ih =>
    obtain ⟨middle, hm, hn⟩ := deriveLeftmost?_cons.mp h
    exact deriveLeftmost?_cons.mpr ⟨middle ++ after, expandLeftmost?_append hm after, ih hn⟩

/-- Applying a rule to a leading nonterminal is a step in front of a derivation. -/
theorem deriveLeftmost?_lhs (wf : g.WellFormed) {r : Rule} (hr : r ∈ g.rules)
    {rest next : List Code} {numbers : List Nat}
    (h : g.deriveLeftmost? (r.expansion ++ rest) numbers = some next) :
    g.deriveLeftmost? (r.lhs :: rest) (r.number :: numbers) = some next := by
  have hl := Alphabet.isTerminal_eq_false.mpr (wf.lhs_nonterminal r hr)
  refine deriveLeftmost?_cons.mpr ⟨_, ?_, h⟩
  exact (expandLeftmost?_cons_nonterminal hl).mpr ⟨r, wf.rule?_number hr, rfl, rfl⟩

/-! ### Reading off a leftmost derivation -/

/-- Symbols turn into a word from the left: a leading terminal is read off, and a leading
nonterminal is replaced by the right side of the next rule. -/
inductive Unfolds (g : Grammar) : List Code → List Rule → List Code → Prop where
  | nil : Unfolds g [] [] []
  | read {c : Code} {rest word : List Code} {rules : List Rule}
    (hc : g.alphabet.isTerminal c = true) (h : Unfolds g rest rules word) :
    Unfolds g (c :: rest) rules (c :: word)
  | expand {r : Rule} {rest word : List Code} {rules : List Rule} (hr : r ∈ g.rules)
    (h : Unfolds g (r.expansion ++ rest) rules word) : Unfolds g (r.lhs :: rest) (r :: rules) word

/-- A word is read off its leftmost derivation. -/
theorem unfolds_of_deriveLeftmost? (wf : g.WellFormed) {symbols word : List Code}
    {rules : List Rule} (hrules : ∀ r ∈ rules, r ∈ g.rules)
    (hword : ∀ c ∈ word, g.alphabet.isTerminal c = true)
    (h : g.deriveLeftmost? symbols (rules.map Rule.number) = some word) :
    g.Unfolds symbols rules word := by
  induction rules generalizing symbols word with
  | nil =>
    cases h
    induction symbols with
    | nil => exact .nil
    | cons c rest ih =>
      obtain ⟨hc, hrest⟩ := List.forall_mem_cons.mp hword
      exact .read hc (ih hrest)
  | cons r rules ih =>
    obtain ⟨hr, hrest⟩ := List.forall_mem_cons.mp hrules
    rw [List.map_cons, deriveLeftmost?_cons] at h
    obtain ⟨middle, hmiddle, hnext⟩ := h
    -- The terminals in front of the first nonterminal are read off before the rule is applied.
    induction symbols generalizing middle word with
    | nil => cases hmiddle
    | cons c symbols ihsymbols =>
      cases hc : g.alphabet.isTerminal c with
      | true =>
        rw [expandLeftmost?_cons_terminal hc, Option.map_eq_some_iff] at hmiddle
        obtain ⟨middle', hmiddle', rfl⟩ := hmiddle
        obtain ⟨word', hnext', rfl⟩ := (deriveLeftmost?_cons_terminal hc).mp hnext
        exact .read hc (ihsymbols (List.forall_mem_cons.mp hword).2 middle' hmiddle' hnext')
      | false =>
        obtain ⟨r', hr', rfl, rfl⟩ := (expandLeftmost?_cons_nonterminal hc).mp hmiddle
        obtain rfl : r = r' := Option.some.inj ((wf.rule?_number hr).symm.trans hr')
        exact .expand hr (ih hrest hword hnext)

/-! ### Words are derived leftmost -/

/-- A leftmost step in a concatenation is one in the first part, or, if that has only terminals,
one in the second. -/
theorem expandLeftmost?_append_cases {number : Nat} {u x next : List Code}
    (h : g.expandLeftmost? number (u ++ x) = some next) :
    (∃ u', g.expandLeftmost? number u = some u' ∧ next = u' ++ x) ∨
      ((∀ c ∈ u, g.alphabet.isTerminal c = true) ∧
        ∃ x', g.expandLeftmost? number x = some x' ∧ next = u ++ x') := by
  induction u generalizing next with
  | nil => exact Or.inr ⟨by simp, next, h, rfl⟩
  | cons c u ih =>
    rw [List.cons_append] at h
    cases hc : g.alphabet.isTerminal c with
    | true =>
      rw [expandLeftmost?_cons_terminal hc, Option.map_eq_some_iff] at h
      obtain ⟨next', hn, rfl⟩ := h
      rcases ih hn with ⟨u', hu, rfl⟩ | ⟨ht, x', hx, rfl⟩
      · refine Or.inl ⟨c :: u', ?_, rfl⟩
        rw [expandLeftmost?_cons_terminal hc, hu]
        rfl
      · refine Or.inr ⟨fun d hd => ?_, x', hx, rfl⟩
        rcases List.mem_cons.mp hd with rfl | hd
        · exact hc
        · exact ht d hd
    | false =>
      obtain ⟨r, hr, hl, rfl⟩ := (expandLeftmost?_cons_nonterminal hc).mp h
      refine Or.inl ⟨r.expansion ++ u, ?_, (List.append_assoc _ _ _).symm⟩
      exact (expandLeftmost?_cons_nonterminal hc).mpr ⟨r, hr, hl, rfl⟩

/-- The leftmost derivation of a word from a concatenation splits into one for each part. -/
theorem deriveLeftmost?_split {u x w : List Code} {numbers : List Nat}
    (hw : ∀ c ∈ w, g.alphabet.isTerminal c = true)
    (h : g.deriveLeftmost? (u ++ x) numbers = some w) :
    ∃ first second v y, numbers = first ++ second ∧ g.deriveLeftmost? u first = some v ∧
      g.deriveLeftmost? x second = some y ∧ w = v ++ y := by
  induction numbers generalizing u with
  | nil =>
    cases h
    exact ⟨[], [], u, x, rfl, rfl, rfl, rfl⟩
  | cons number numbers ih =>
    obtain ⟨middle, hm, hn⟩ := deriveLeftmost?_cons.mp h
    rcases expandLeftmost?_append_cases hm with ⟨u', hu, rfl⟩ | ⟨ht, x', hx, rfl⟩
    · obtain ⟨first, second, v, y, rfl, hv, hy, he⟩ := ih hn
      exact ⟨number :: first, second, v, y, rfl, deriveLeftmost?_cons.mpr ⟨u', hu, hv⟩, hy, he⟩
    · obtain ⟨y, hy, he⟩ := (deriveLeftmost?_append_terminals ht).mp hn
      exact ⟨[], number :: numbers, u, y, rfl, rfl, deriveLeftmost?_cons.mpr ⟨x', hx, hy⟩, he⟩

/-- A word that is derived in any order of steps is derived leftmost. -/
theorem exists_deriveLeftmost?_of_derives (wf : g.WellFormed) {form w : List Code}
    (hw : ∀ c ∈ w, g.alphabet.isTerminal c = true) (h : g.Derives form w) :
    ∃ numbers, g.deriveLeftmost? form numbers = some w := by
  induction h using Relation.ReflTransGen.head_induction_on with
  | refl => exact ⟨[], rfl⟩
  | head hy _ ih =>
    obtain ⟨r, before, after, hr⟩ := hy
    obtain ⟨numbers, hn⟩ := ih
    rw [List.append_assoc] at hn
    obtain ⟨first, second, v, y, rfl, hv, hy, rfl⟩ := deriveLeftmost?_split hw hn
    have hvt : ∀ c ∈ v, g.alphabet.isTerminal c = true :=
      fun c hc => hw c (List.mem_append_left _ hc)
    have hback := deriveLeftmost?_lhs wf hr hy
    refine ⟨first ++ r.number :: second, deriveLeftmost?_append.mpr ⟨v ++ r.lhs :: after, ?_, ?_⟩⟩
    · exact deriveLeftmost?_append_right hv (r.lhs :: after)
    · exact (deriveLeftmost?_append_terminals hvt).mpr ⟨y, hback, rfl⟩

end Grammar

end PredictiveFrontend

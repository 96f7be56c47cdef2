import PredictiveFrontend.Grammar.First
import PredictiveFrontend.Proofs.Grammar.Derives
import PredictiveFrontend.Proofs.Grammar.Saturation
import Mathlib.Data.List.Basic

/-!
# FIRST sets are exact

The FIRST sets hold no more and no less than what derivations begin with. Every member comes from
a leftmost derivation: that is kept by every round. Every derivation is foreseen: the sets are
closed under the rules in the end, so undoing one step of a derivation loses nothing.
-/

namespace PredictiveFrontend

namespace First

variable {size : Nat} {first : SetFamily size}

/-! ### Sequences -/

theorem mem_ofSequence_nil {t : Code} :
    t ∈ ofSequence first [] ↔ t = Code.epsilon ∧ Code.epsilon < size :=
  CodeSet.mem_singleton

/-- A sequence begins like its first symbol, or, if that can vanish, like the rest. -/
theorem mem_ofSequence_cons {c t : Code} {rest : List Code} :
    t ∈ ofSequence first (c :: rest) ↔ (t ∈ first.get c ∧ t ≠ Code.epsilon) ∨
      (Code.epsilon ∈ first.get c ∧ t ∈ ofSequence first rest) := by
  rw [ofSequence]
  by_cases he : Code.epsilon ∈ first.get c
  · simp [he]
  · rw [if_neg he]
    constructor
    · intro ht
      refine Or.inl ⟨ht, ?_⟩
      rintro rfl
      exact he ht
    · rintro (⟨ht, _⟩ | ⟨hc, _⟩)
      · exact ht
      · exact absurd hc he

/-- A concatenation begins like its first part, or, if that can vanish, like the second. -/
theorem mem_ofSequence_append {u v : List Code} {t : Code} :
    t ∈ ofSequence first (u ++ v) ↔ (t ∈ ofSequence first u ∧ t ≠ Code.epsilon) ∨
      (Code.epsilon ∈ ofSequence first u ∧ t ∈ ofSequence first v) := by
  induction u with
  | nil =>
    rw [List.nil_append, mem_ofSequence_nil, mem_ofSequence_nil]
    constructor
    · intro ht
      exact Or.inr ⟨⟨rfl, Nat.zero_lt_of_lt (CodeSet.lt_of_mem ht)⟩, ht⟩
    · rintro (⟨⟨rfl, _⟩, hne⟩ | ⟨_, ht⟩)
      · exact absurd rfl hne
      · exact ht
  | cons c u ih =>
    simp only [List.cons_append, mem_ofSequence_cons, ih, ne_eq, not_true_eq_false, and_false,
      false_or]
    grind

end First

namespace Grammar

/-- Leftmost steps bring a terminal to the front of a form; for the marker of the empty word, they
make the form vanish. -/
def Starts (g : Grammar) (form : List Code) (t : Code) : Prop :=
  if t = Code.epsilon then ∃ numbers, g.deriveLeftmost? form numbers = some []
  else ∃ numbers rest, g.deriveLeftmost? form numbers = some (t :: rest)

variable {g : Grammar}

theorem starts_epsilon {form : List Code} :
    g.Starts form Code.epsilon ↔ ∃ numbers, g.deriveLeftmost? form numbers = some [] := by
  rw [Starts, if_pos rfl]

theorem starts_of_ne {form : List Code} {t : Code} (ht : t ≠ Code.epsilon) :
    g.Starts form t ↔ ∃ numbers rest, g.deriveLeftmost? form numbers = some (t :: rest) := by
  rw [Starts, if_neg ht]

/-- What the first part starts with, the whole starts with. -/
theorem Starts.append_right {u : List Code} {t : Code} (ht : t ≠ Code.epsilon)
    (h : g.Starts u t) (v : List Code) : g.Starts (u ++ v) t := by
  obtain ⟨numbers, rest, hd⟩ := (starts_of_ne ht).mp h
  exact (starts_of_ne ht).mpr ⟨numbers, rest ++ v, deriveLeftmost?_append_right hd v⟩

/-- Behind a part that vanishes the whole starts like the rest. -/
theorem Starts.append_left {u v : List Code} {t : Code} (hu : g.Starts u Code.epsilon)
    (h : g.Starts v t) : g.Starts (u ++ v) t := by
  obtain ⟨vanish, hv⟩ := starts_epsilon.mp hu
  have hd := deriveLeftmost?_append_right hv v
  by_cases ht : t = Code.epsilon
  · subst ht
    obtain ⟨numbers, hn⟩ := starts_epsilon.mp h
    exact starts_epsilon.mpr ⟨vanish ++ numbers, deriveLeftmost?_append.mpr ⟨v, hd, hn⟩⟩
  · obtain ⟨numbers, rest, hn⟩ := (starts_of_ne ht).mp h
    exact (starts_of_ne ht).mpr
      ⟨vanish ++ numbers, rest, deriveLeftmost?_append.mpr ⟨v, hd, hn⟩⟩

/-- A nonterminal starts like the right sides of its rules. -/
theorem Starts.lhs (wf : g.WellFormed) {r : Rule} (hr : r ∈ g.rules) {t : Code}
    (h : g.Starts r.expansion t) : g.Starts [r.lhs] t := by
  by_cases ht : t = Code.epsilon
  · subst ht
    obtain ⟨numbers, hn⟩ := starts_epsilon.mp h
    exact starts_epsilon.mpr ⟨_, deriveLeftmost?_lhs wf hr (by rwa [List.append_nil])⟩
  · obtain ⟨numbers, rest, hn⟩ := (starts_of_ne ht).mp h
    exact (starts_of_ne ht).mpr
      ⟨_, rest, deriveLeftmost?_lhs wf hr (by rwa [List.append_nil])⟩

end Grammar

/-! ### Every member is derived -/

namespace First

variable {g : Grammar} {first : SetFamily g.alphabet.size}

/-- The members of the sets are terminals that symbols start with. -/
structure Sound (g : Grammar) (first : SetFamily g.alphabet.size) : Prop where
  isTerminal : ∀ c t, t ∈ first.get c → g.alphabet.isTerminal t = true
  starts : ∀ c t, t ∈ first.get c → g.Starts (Grammar.sententialForm [c]) t

/-- Sound sets are sound for sequences. -/
theorem Sound.starts_ofSequence (h : Sound g first) {symbols : List Code} {t : Code}
    (ht : t ∈ ofSequence first symbols) : g.Starts (Grammar.sententialForm symbols) t := by
  induction symbols generalizing t with
  | nil =>
    obtain ⟨rfl, _⟩ := mem_ofSequence_nil.mp ht
    exact Grammar.starts_epsilon.mpr ⟨[], rfl⟩
  | cons c rest ih =>
    rw [Grammar.sententialForm_cons]
    rcases mem_ofSequence_cons.mp ht with ⟨hc, hne⟩ | ⟨he, hr⟩
    · exact (h.starts c t hc).append_right hne _
    · exact (h.starts c _ he).append_left (ih hr)

theorem Sound.isTerminal_ofSequence (wf : g.WellFormed) (h : Sound g first)
    {symbols : List Code} {t : Code} (ht : t ∈ ofSequence first symbols) :
    g.alphabet.isTerminal t = true := by
  induction symbols with
  | nil =>
    obtain ⟨rfl, _⟩ := mem_ofSequence_nil.mp ht
    exact wf.isTerminal_epsilon
  | cons c rest ih =>
    rcases mem_ofSequence_cons.mp ht with ⟨hc, _⟩ | ⟨_, hr⟩
    · exact h.isTerminal c t hc
    · exact ih hr

/-- Terminals start with themselves, which is all that is known at first. -/
theorem sound_initial (g : Grammar) : Sound g (initial g.alphabet) := by
  have hmem : ∀ c t, t ∈ (initial g.alphabet).get c → g.alphabet.isTerminal c = true ∧ t = c := by
    intro c t ht
    have hc := SetFamily.lt_of_mem_get ht
    rw [initial, SetFamily.get_ofFn (by rwa [initial, SetFamily.length_ofFn] at hc)] at ht
    split at ht
    · next hterm => exact ⟨hterm, (CodeSet.mem_singleton.mp ht).1⟩
    · exact absurd ht (CodeSet.not_mem_empty t)
  constructor
  · intro c t ht
    obtain ⟨hc, rfl⟩ := hmem c t ht
    exact hc
  · intro c t ht
    obtain ⟨hc, rfl⟩ := hmem c t ht
    by_cases he : t = Code.epsilon
    · subst he
      exact Grammar.starts_epsilon.mpr ⟨[], rfl⟩
    · refine (Grammar.starts_of_ne he).mpr ⟨[], [], ?_⟩
      rw [Grammar.sententialForm_eq_self (by simpa using Ne.symm he)]
      rfl

/-- The addition of one rule keeps the sets sound. -/
theorem Sound.applyRule (wf : g.WellFormed) (h : Sound g first) {r : Rule} (hr : r ∈ g.rules) :
    Sound g (applyRule first r) := by
  constructor
  · intro c t ht
    rcases SetFamily.mem_get_add.mp ht with ht | ⟨_, _, ht⟩
    · exact h.isTerminal c t ht
    · exact h.isTerminal_ofSequence wf ht
  · intro c t ht
    rcases SetFamily.mem_get_add.mp ht with ht | ⟨rfl, _, ht⟩
    · exact h.starts c t ht
    · have hne := wf.ne_epsilon_of_isNonterminal (wf.lhs_nonterminal r hr)
      rw [Grammar.sententialForm_eq_self (by simpa using Ne.symm hne)]
      exact (h.starts_ofSequence ht).lhs wf hr

/-- The FIRST sets are sound. -/
theorem sound_first (wf : g.WellFormed) : Sound g g.first :=
  saturate_foldl_induction _ (fun _ hr _ h => h.applyRule wf hr) (sound_initial g)

/-- A terminal that a sequence begins with is brought to the front by a derivation. -/
theorem Sound.exists_derives_cons (h : Sound g first) {symbols : List Code} {t : Code}
    (ht : t ∈ ofSequence first symbols) (hne : t ≠ Code.epsilon) :
    ∃ rest, g.Derives (Grammar.sententialForm symbols) (t :: rest) := by
  obtain ⟨numbers, rest, hd⟩ := (Grammar.starts_of_ne hne).mp (h.starts_ofSequence ht)
  exact ⟨rest, Grammar.derives_of_deriveLeftmost? hd⟩

/-- A sequence that may vanish derives the empty word. -/
theorem Sound.derives_nil (h : Sound g first) {symbols : List Code}
    (he : Code.epsilon ∈ ofSequence first symbols) :
    g.Derives (Grammar.sententialForm symbols) [] := by
  obtain ⟨numbers, hd⟩ := Grammar.starts_epsilon.mp (h.starts_ofSequence he)
  exact Grammar.derives_of_deriveLeftmost? hd

/-! ### Every derivation is foreseen -/

/-- The sets have been extended by every rule, and a terminal starts with itself alone. -/
structure Closed (g : Grammar) (first : SetFamily g.alphabet.size) : Prop where
  terminal : ∀ c, c < g.alphabet.size → g.alphabet.isTerminal c = true →
    first.get c = CodeSet.singleton c
  rule : ∀ r ∈ g.rules, ∀ t ∈ ofSequence first r.rhs, t ∈ first.get r.lhs

/-- Every symbol has a set, after any number of rounds. -/
theorem length_first (g : Grammar) : g.first.sets.length = g.alphabet.size := by
  refine saturate_foldl_induction (P := fun first : SetFamily g.alphabet.size =>
    first.sets.length = g.alphabet.size) _ (fun r _ first h => ?_) (SetFamily.length_ofFn _)
  exact (SetFamily.length_add _ _ _).trans h

/-- The set of a terminal stays as it is at first: rules are for nonterminals. -/
theorem get_first_terminal (wf : g.WellFormed) {c : Code} (hc : c < g.alphabet.size)
    (ht : g.alphabet.isTerminal c = true) : g.first.get c = CodeSet.singleton c := by
  refine saturate_foldl_induction (P := fun first : SetFamily g.alphabet.size =>
    first.get c = CodeSet.singleton c) _ (fun r hr first h => ?_) ?_
  · have hne : r.lhs ≠ c := by
      rintro rfl
      rw [Alphabet.isTerminal_eq_false.mpr (wf.lhs_nonterminal r hr)] at ht
      cases ht
    rw [applyRule, SetFamily.get_add, if_neg fun hc => hne hc.1]
    exact h
  · rw [initial, SetFamily.get_ofFn hc, if_pos ht]

/-- The last round changes nothing, so no rule adds anything any more. -/
theorem closed_first (wf : g.WellFormed) : Closed g g.first := by
  refine ⟨fun c hc ht => get_first_terminal wf hc ht, fun r hr t ht => ?_⟩
  have hround : round g.rules g.first = g.first := step_saturate _ _
  have hfix := LowersRank.fixed_of_foldl (fun _ _ => SetFamily.add_eq_or_rank_lt _ _ _) hround r hr
  exact SetFamily.subset_of_add_eq hfix (by rw [length_first]; exact wf.lhs_lt hr) ht

/-- A terminal is all that a form led by it starts with. -/
theorem Closed.mem_ofSequence_terminal (h : Closed g first) {t : Code}
    (hlt : t < g.alphabet.size) (ht : g.alphabet.isTerminal t = true) (hne : t ≠ Code.epsilon)
    {c : Code} {rest : List Code} : c ∈ ofSequence first (t :: rest) ↔ c = t := by
  simp only [mem_ofSequence_cons, h.terminal t hlt ht, CodeSet.mem_singleton]
  constructor
  · rintro (⟨⟨rfl, _⟩, _⟩ | ⟨⟨he, _⟩, _⟩)
    · rfl
    · exact absurd he.symm hne
  · rintro rfl
    exact Or.inl ⟨⟨rfl, hlt⟩, hne⟩

/-- Markers of the empty word make no difference. -/
theorem Closed.mem_ofSequence_sententialForm (wf : g.WellFormed) (h : Closed g first)
    {symbols : List Code} {t : Code} :
    t ∈ ofSequence first (Grammar.sententialForm symbols) ↔ t ∈ ofSequence first symbols := by
  induction symbols with
  | nil => rfl
  | cons c rest ih =>
    by_cases hc : c = Code.epsilon
    · subst hc
      have hlt := wf.epsilon_lt
      have he := h.terminal Code.epsilon hlt wf.isTerminal_epsilon
      rw [show Grammar.sententialForm (Code.epsilon :: rest) = Grammar.sententialForm rest from rfl,
        ih, mem_ofSequence_cons, he, CodeSet.mem_singleton, CodeSet.mem_singleton]
      exact ⟨fun ht => Or.inr ⟨⟨rfl, hlt⟩, ht⟩,
        fun ht => ht.elim (fun hl => absurd hl.1.1 hl.2) And.right⟩
    · have hform : Grammar.sententialForm (c :: rest) = c :: Grammar.sententialForm rest :=
        List.filter_cons_of_pos (by simpa using hc)
      rw [hform, mem_ofSequence_cons, mem_ofSequence_cons, ih]

/-- Undoing a step loses nothing that a form starts with. -/
theorem Closed.mem_of_yields (wf : g.WellFormed) (h : Closed g first) {u v : List Code}
    (hy : g.Yields u v) {t : Code} (ht : t ∈ ofSequence first v) : t ∈ ofSequence first u := by
  obtain ⟨r, before, after, hr⟩ := hy
  have hrule : ∀ c, c ∈ ofSequence first r.expansion → c ∈ first.get r.lhs := fun c hc =>
    h.rule r hr c ((h.mem_ofSequence_sententialForm wf).mp hc)
  rw [List.append_assoc] at ht
  simp only [mem_ofSequence_append, mem_ofSequence_cons] at ht ⊢
  rcases ht with hb | ⟨hb, ⟨he, hne⟩ | ⟨he, ha⟩⟩
  · exact Or.inl hb
  · exact Or.inr ⟨hb, Or.inl ⟨hrule t he, hne⟩⟩
  · exact Or.inr ⟨hb, Or.inr ⟨hrule _ he, ha⟩⟩

/-- What a derived form starts with, the form it is derived from starts with. -/
theorem Closed.mem_of_derives (wf : g.WellFormed) (h : Closed g first) {u v : List Code}
    (hd : g.Derives u v) {t : Code} (ht : t ∈ ofSequence first v) : t ∈ ofSequence first u := by
  induction hd using Relation.ReflTransGen.head_induction_on with
  | refl => exact ht
  | head hy _ ih => exact h.mem_of_yields wf hy ih

end First

/-! ### FIRST sets are exact -/

/-- A terminal other than the empty word is in the FIRST set of a sequence exactly if a form that
begins with it is derived. -/
theorem Grammar.mem_first_iff {g : Grammar} (wf : g.WellFormed) {symbols : List Code}
    (hs : ∀ c ∈ symbols, c < g.alphabet.size) {t : Code} (ht : g.alphabet.isTerminal t = true)
    (hne : t ≠ Code.epsilon) :
    t ∈ First.ofSequence g.first symbols ↔
      ∃ rest, g.Derives (sententialForm symbols) (t :: rest) := by
  have hclosed := First.closed_first wf
  constructor
  · exact fun hm => (First.sound_first wf).exists_derives_cons hm hne
  · rintro ⟨rest, hd⟩
    have hlt : t < g.alphabet.size :=
      hd.lt_size wf (fun c hc => hs c (List.mem_filter.mp hc).1) t (List.mem_cons_self ..)
    rw [← hclosed.mem_ofSequence_sententialForm wf]
    exact hclosed.mem_of_derives wf hd ((hclosed.mem_ofSequence_terminal hlt ht hne).mpr rfl)

/-- The marker of the empty word is in the FIRST set of a sequence exactly if the sequence derives
that word. -/
theorem Grammar.epsilon_mem_first_iff {g : Grammar} (wf : g.WellFormed) {symbols : List Code} :
    Code.epsilon ∈ First.ofSequence g.first symbols ↔ g.Derives (sententialForm symbols) [] := by
  have hclosed := First.closed_first wf
  constructor
  · exact (First.sound_first wf).derives_nil
  · intro hd
    rw [← hclosed.mem_ofSequence_sententialForm wf]
    refine hclosed.mem_of_derives wf hd (First.mem_ofSequence_nil.mpr ⟨rfl, ?_⟩)
    exact wf.epsilon_lt

/-- The FIRST set of a symbol is that of the sequence of this symbol alone. -/
theorem First.ofSequence_singleton {size : Nat} (first : SetFamily size) (c : Code) :
    ofSequence first [c] = first.get c := by
  ext t
  rw [mem_ofSequence_cons, mem_ofSequence_nil]
  constructor
  · rintro (⟨ht, _⟩ | ⟨he, rfl, _⟩)
    · exact ht
    · exact he
  · intro ht
    by_cases hne : t = Code.epsilon
    · subst hne
      exact Or.inr ⟨ht, rfl, CodeSet.lt_of_mem ht⟩
    · exact Or.inl ⟨ht, hne⟩

/-- For every grammar text that is read, the rounds end, and the FIRST set of any sequence of
symbols holds exactly the terminals that begin its derived forms, and the marker of the empty word
exactly if that word is derived; the set of a symbol is that of the sequence of it alone. -/
theorem Grammar.first_exact {text : String} {g : Grammar} (h : Grammar.ofText text = .ok g) :
    (∃ n, (First.round g.rules)^[n] (First.initial g.alphabet) = g.first ∧
      First.round g.rules g.first = g.first) ∧
    (∀ symbols : List Code, (∀ c ∈ symbols, c < g.alphabet.size) →
      (∀ t, g.alphabet.isTerminal t = true → t ≠ Code.epsilon →
        (t ∈ First.ofSequence g.first symbols ↔
          ∃ rest, g.Derives (sententialForm symbols) (t :: rest))) ∧
      (Code.epsilon ∈ First.ofSequence g.first symbols ↔
        g.Derives (sententialForm symbols) [])) ∧
    ∀ c, First.ofSequence g.first [c] = g.first.get c := by
  have wf := wellFormed_of_ofText h
  refine ⟨?_, fun symbols hs => ?_, First.ofSequence_singleton g.first⟩
  · obtain ⟨n, hn⟩ := exists_iterate_eq_saturate (First.round_lowersRank g.rules)
      (First.initial g.alphabet)
    exact ⟨n, hn, step_saturate _ _⟩
  · exact ⟨fun t ht hne => mem_first_iff wf hs ht hne, epsilon_mem_first_iff wf⟩

/-- A left-recursive nonterminal, one without words, and a marker among other symbols. -/
def Grammar.leftRecursiveText : String :=
  "S -> A EPSILON b\nA -> A a | EPSILON | U\nU -> U c"

/-- The grammar of that text; `b` has code 4, `a` code 5 and `c` code 7. -/
def Grammar.leftRecursive : Grammar where
  alphabet := ⟨["EPSILON", "$", "S", "A", "b", "a", "U", "c"]⟩
  rules := [⟨0, 2, [3, 0, 4]⟩, ⟨1, 3, [3, 5]⟩, ⟨2, 3, [0]⟩, ⟨3, 3, [6]⟩, ⟨4, 6, [6, 7]⟩]
  start := 2

/-- The start symbol derives forms that begin with `a`, but none that begins with `c`. -/
theorem Grammar.first_exact_leftRecursive :
    Grammar.ofText leftRecursiveText = .ok leftRecursive ∧
      (∃ rest, leftRecursive.Derives [2] (5 :: rest)) ∧
      (¬∃ rest, leftRecursive.Derives [2] (7 :: rest)) ∧ leftRecursive.Derives [3] [] := by
  have h : Grammar.ofText leftRecursiveText = .ok leftRecursive := by decide +kernel
  have hfirst := (first_exact h).2.1
  refine ⟨h, ?_, ?_, ?_⟩
  · exact ((hfirst [2] (by decide)).1 5 (by decide) (by decide)).mp (by decide +kernel)
  · rw [← show sententialForm [2] = [2] from rfl,
      ← (hfirst [2] (by decide)).1 7 (by decide) (by decide)]
    decide +kernel
  · exact (hfirst [3] (by decide)).2.mp (by decide +kernel)

end PredictiveFrontend

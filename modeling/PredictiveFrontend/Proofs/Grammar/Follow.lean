import PredictiveFrontend.Grammar.Follow
import PredictiveFrontend.Proofs.Grammar.First

/-!
# FOLLOW sets are closed

When the repetition ends, every occurrence of a nonterminal has been taken into account: the FOLLOW
set of the nonterminal holds what the rest behind it begins with, and, if that rest can vanish, all
of the FOLLOW set of the left side. What is true of the right sides is then true of every derived
form: a terminal that begins what stands behind a nonterminal is in its set. No set holds the marker
of the empty word.
-/

namespace PredictiveFrontend

/-- The places of a right side are its splits around a symbol. -/
theorem Occurrence.mem_ofSequence {owner : Code} {rhs : List Code} {o : Occurrence} :
    o ∈ ofSequence owner rhs ↔
      o.owner = owner ∧ ∃ before, rhs = before ++ o.symbol :: o.rest := by
  induction rhs with
  | nil => simp [ofSequence]
  | cons c rest ih =>
    rw [ofSequence, List.mem_cons, ih]
    constructor
    · rintro (rfl | ⟨ho, before, rfl⟩)
      · exact ⟨rfl, [], rfl⟩
      · exact ⟨ho, c :: before, rfl⟩
    · rintro ⟨ho, before, hb⟩
      cases before with
      | nil =>
        obtain ⟨rfl, rfl⟩ := List.cons.inj hb
        exact Or.inl (by rw [← ho])
      | cons d before =>
        obtain ⟨rfl, rfl⟩ := List.cons.inj hb
        exact Or.inr ⟨ho, before, rfl⟩

/-- The occurrences of a grammar are the nonterminals on its right sides, in context. -/
theorem Grammar.mem_occurrences {g : Grammar} {o : Occurrence} :
    o ∈ g.occurrences ↔ g.alphabet.isNonterminal o.symbol = true ∧
      ∃ r ∈ g.rules, o.owner = r.lhs ∧ ∃ before, r.rhs = before ++ o.symbol :: o.rest := by
  simp only [occurrences, List.mem_filter, List.mem_flatMap, Occurrence.mem_ofSequence]
  exact and_comm

namespace Follow

variable {g : Grammar} {first follow : SetFamily g.alphabet.size}

/-- Every occurrence has been taken into account. -/
structure Closed (g : Grammar) (first follow : SetFamily g.alphabet.size) : Prop where
  /-- The start symbol can stand last. -/
  start : Code.endOfInput ∈ follow.get g.start
  /-- What the rest behind a nonterminal begins with can follow it. -/
  direct : ∀ r ∈ g.rules, ∀ before c rest, r.rhs = before ++ c :: rest →
    g.alphabet.isNonterminal c = true → ∀ t ∈ First.ofSequence first rest, t ≠ Code.epsilon →
    t ∈ follow.get c
  /-- What can follow the left side can follow a nonterminal behind which the rest can vanish. -/
  inherit : ∀ r ∈ g.rules, ∀ before c rest, r.rhs = before ++ c :: rest →
    g.alphabet.isNonterminal c = true → Code.epsilon ∈ First.ofSequence first rest →
    ∀ t ∈ follow.get r.lhs, t ∈ follow.get c

/-- What an occurrence adds to the set of its symbol. -/
theorem mem_applyOccurrence {o : Occurrence} {c t : Code} :
    t ∈ (applyOccurrence first follow o).get c ↔ t ∈ follow.get c ∨
      (o.symbol = c ∧ o.symbol < follow.sets.length ∧
        ((t ∈ First.ofSequence first o.rest ∧ t ≠ Code.epsilon) ∨
          (Code.epsilon ∈ First.ofSequence first o.rest ∧ t ∈ follow.get o.owner))) := by
  rw [applyOccurrence, SetFamily.mem_get_add]
  by_cases hi : inherits first o = true
  · have he : Code.epsilon ∈ First.ofSequence first o.rest := of_decide_eq_true hi
    simp [hi, direct, he]
  · have he : Code.epsilon ∉ First.ofSequence first o.rest := fun h => hi (decide_eq_true h)
    simp [hi, direct, he]

/-- Every symbol has a set, after any number of rounds. -/
theorem length_followFixedPoint (g : Grammar) (first : SetFamily g.alphabet.size) :
    (g.followFixedPoint first).sets.length = g.alphabet.size := by
  refine saturate_foldl_induction (P := fun follow : SetFamily g.alphabet.size =>
    follow.sets.length = g.alphabet.size) _ (fun o _ follow h => ?_) ?_
  · exact (SetFamily.length_add _ _ _).trans h
  · rw [initial, SetFamily.length_add]
    exact SetFamily.length_ofFn _

theorem mem_initial {start c t : Code} :
    t ∈ (initial start : SetFamily g.alphabet.size).get c ↔
      start = c ∧ start < g.alphabet.size ∧ t = Code.endOfInput ∧
        Code.endOfInput < g.alphabet.size := by
  have hlen : (∅ : SetFamily g.alphabet.size).sets.length = g.alphabet.size :=
    SetFamily.length_ofFn _
  rw [initial, SetFamily.mem_get_add, SetFamily.get_empty, CodeSet.mem_singleton, hlen]
  exact ⟨fun h => h.resolve_left (CodeSet.not_mem_empty t), Or.inr⟩

/-- The end of input is never taken away from the start symbol. -/
theorem endOfInput_mem_followFixedPoint (wf : g.WellFormed)
    (first : SetFamily g.alphabet.size) :
    Code.endOfInput ∈ (g.followFixedPoint first).get g.start := by
  refine saturate_foldl_induction (P := fun follow : SetFamily g.alphabet.size =>
    Code.endOfInput ∈ follow.get g.start) _ (fun o _ follow h => ?_) ?_
  · exact mem_applyOccurrence.mpr (Or.inl h)
  · exact mem_initial.mpr ⟨rfl, Alphabet.lt_size_of_isNonterminal wf.isNonterminal_start, rfl,
      wf.endOfInput_lt⟩

/-- The last round changes nothing, so no occurrence adds anything any more. -/
theorem closed_followFixedPoint (wf : g.WellFormed) (first : SetFamily g.alphabet.size) :
    Closed g first (g.followFixedPoint first) := by
  have hround : round first g.occurrences (g.followFixedPoint first) = g.followFixedPoint first :=
    step_saturate _ _
  have hfix := LowersRank.fixed_of_foldl (fun _ _ => SetFamily.add_eq_or_rank_lt _ _ _) hround
  have hadded : ∀ r ∈ g.rules, ∀ before c rest, r.rhs = before ++ c :: rest →
      g.alphabet.isNonterminal c = true → ∀ t,
      ((t ∈ First.ofSequence first rest ∧ t ≠ Code.epsilon) ∨ (Code.epsilon ∈
        First.ofSequence first rest ∧ t ∈ (g.followFixedPoint first).get r.lhs)) →
      t ∈ (g.followFixedPoint first).get c := by
    intro r hr before c rest hrhs hc t ht
    have ho : (⟨c, rest, r.lhs⟩ : Occurrence) ∈ g.occurrences :=
      Grammar.mem_occurrences.mpr ⟨hc, r, hr, rfl, before, hrhs⟩
    rw [← hfix _ ho]
    refine mem_applyOccurrence.mpr (Or.inr ⟨rfl, ?_, ht⟩)
    rw [length_followFixedPoint]
    exact Alphabet.lt_size_of_isNonterminal hc
  constructor
  case start => exact endOfInput_mem_followFixedPoint wf first
  case direct =>
    intro r hr before c rest hrhs hc t ht hne
    exact hadded r hr before c rest hrhs hc t (Or.inl ⟨ht, hne⟩)
  case inherit =>
    intro r hr before c rest hrhs hc he t ht
    exact hadded r hr before c rest hrhs hc t (Or.inr ⟨he, ht⟩)

/-- Every occurrence in a right side without markers has been taken into account as well. -/
theorem Closed.mem_of_expansion (wf : g.WellFormed) (hfirst : First.Closed g first)
    (h : Closed g first follow) {r : Rule} (hr : r ∈ g.rules) {before rest : List Code} {c t : Code}
    (he : r.expansion = before ++ c :: rest) (hc : g.alphabet.isNonterminal c = true)
    (ht : (t ∈ First.ofSequence first rest ∧ t ≠ Code.epsilon) ∨
      (Code.epsilon ∈ First.ofSequence first rest ∧ t ∈ follow.get r.lhs)) :
    t ∈ follow.get c := by
  obtain ⟨left, right, hrhs, -, hright⟩ := List.filter_eq_append_iff.mp he
  obtain ⟨between, rest', rfl, -, -, hrest⟩ := List.filter_eq_cons_iff.mp hright
  have hsplit : r.rhs = (left ++ between) ++ c :: rest' := by
    rw [hrhs, List.append_assoc]
  have hmem : ∀ x, x ∈ First.ofSequence first rest ↔ x ∈ First.ofSequence first rest' := by
    intro x
    rw [← hrest]
    exact hfirst.mem_ofSequence_sententialForm wf
  simp only [hmem] at ht
  rcases ht with ⟨ht, hne⟩ | ⟨he, ht⟩
  · exact h.direct r hr _ c rest' hsplit hc t ht hne
  · exact h.inherit r hr _ c rest' hsplit hc he t ht

/-! ### Forms that the sets cover -/

/-- The sets cover a form if what the symbols behind a nonterminal begin with may follow it. -/
def Covers (g : Grammar) (first follow : SetFamily g.alphabet.size) (symbols : List Code) : Prop :=
  ∀ before c rest, symbols = before ++ c :: rest → g.alphabet.isNonterminal c = true →
    ∀ t ∈ First.ofSequence first rest, t ≠ Code.epsilon → t ∈ follow.get c

namespace Covers

/-- Whether a form is covered depends on what is behind its nonterminals, so a part behind another
one is covered as well. -/
theorem of_append {before symbols : List Code} (h : Covers g first follow (before ++ symbols)) :
    Covers g first follow symbols := by
  intro left c rest hsplit
  refine h (before ++ left) c rest ?_
  rw [hsplit, List.append_assoc]

/-- Nothing is behind a single symbol. -/
theorem singleton (c : Code) : Covers g first follow [c] := by
  intro before d rest hs hd t ht hne
  have hnil : rest = [] := by
    cases before with
    | nil => exact (List.cons.inj hs).2.symm
    | cons b before =>
      have hlength := congrArg List.length hs
      simp at hlength
  subst hnil
  exact absurd (First.mem_ofSequence_nil.mp ht).1 hne

/-- A terminal may stand behind a symbol that it follows. -/
theorem pair (hfirst : First.Closed g first) {c t : Code} (ht : g.alphabet.isTerminal t = true)
    (hne : t ≠ Code.epsilon) (h : t ∈ follow.get c) : Covers g first follow [c, t] := by
  intro before d rest hs hd x hx hxne
  cases before with
  | nil =>
    obtain ⟨rfl, rfl⟩ := List.cons.inj hs
    have he := (hfirst.mem_ofSequence_terminal (CodeSet.lt_of_mem h) ht hne).mp hx
    rw [he]
    exact h
  | cons b before => exact singleton t before d rest (List.cons.inj hs).2 hd x hx hxne

section Derives

variable (wf : g.WellFormed) (hfirst : First.Closed g first) (hfollow : Closed g first follow)
include wf hfirst hfollow

/-- Expanding a leading nonterminal by one of its rules keeps a form covered. -/
theorem expand {r : Rule} (hr : r ∈ g.rules) {rest : List Code}
    (h : Covers g first follow (r.lhs :: rest)) :
    Covers g first follow (r.expansion ++ rest) := by
  intro before c rest' hs hc t ht hne
  rcases List.append_eq_append_iff.mp hs with ⟨between, rfl, hrest⟩ | ⟨tail, hexpansion, hrest⟩
  · exact h (r.lhs :: between) c rest' (congrArg (r.lhs :: ·) hrest) hc t ht hne
  · cases tail with
    | nil => exact h [r.lhs] c rest' (congrArg (r.lhs :: ·) hrest.symm) hc t ht hne
    | cons d tail =>
      obtain ⟨rfl, rfl⟩ := List.cons.inj hrest
      refine hfollow.mem_of_expansion wf hfirst hr hexpansion hc ?_
      rcases First.mem_ofSequence_append.mp ht with ht | ⟨he, ht⟩
      · exact Or.inl ht
      · exact Or.inr ⟨he, h [] r.lhs rest rfl (wf.lhs_nonterminal r hr) t ht hne⟩

/-- A step inside a covered form leads to a covered form: in front of the replaced symbol nothing
new stands behind a nonterminal, since undoing the step loses no beginning. -/
theorem of_yields {u v : List Code} (h : Covers g first follow u) (hy : g.Yields u v) :
    Covers g first follow v := by
  intro before c rest hsplit hc t ht hne
  obtain ⟨r, left, right, hr⟩ := hy
  have hexpanded : Covers g first follow (r.expansion ++ right) :=
    h.of_append.expand wf hfirst hfollow hr
  rw [List.append_assoc] at hsplit
  rcases List.append_eq_append_iff.mp hsplit with ⟨between, -, hrest⟩ | ⟨tail, hleft, hrest⟩
  · exact hexpanded between c rest hrest hc t ht hne
  · cases tail with
    | nil => exact hexpanded [] c rest hrest.symm hc t ht hne
    | cons d tail =>
      obtain ⟨rfl, rfl⟩ := List.cons.inj hrest
      have hstep : g.Yields (tail ++ r.lhs :: right) (tail ++ (r.expansion ++ right)) := by
        have hy := Grammar.Yields.apply r tail right hr
        rwa [List.append_assoc] at hy
      have hback := hfirst.mem_of_yields wf hstep ht
      refine h before c (tail ++ r.lhs :: right) ?_ hc t hback hne
      rw [hleft, List.append_assoc]
      rfl

/-- Every form that is derived from a covered one is covered. -/
theorem of_derives {u v : List Code} (h : Covers g first follow u) (hd : g.Derives u v) :
    Covers g first follow v := by
  induction hd with
  | refl => exact h
  | tail _ hy ih => exact ih.of_yields wf hfirst hfollow hy

end Derives

end Covers

/-- Only terminals follow, and the marker of the empty word does not. -/
theorem isTerminal_of_mem_followFixedPoint (wf : g.WellFormed) {c t : Code}
    (h : t ∈ (g.followFixedPoint g.first).get c) :
    g.alphabet.isTerminal t = true ∧ t ≠ Code.epsilon := by
  refine saturate_foldl_induction (P := fun follow : SetFamily g.alphabet.size =>
    ∀ c t, t ∈ follow.get c → g.alphabet.isTerminal t = true ∧ t ≠ Code.epsilon) _
    (fun o _ follow hfollow c t ht => ?_) (fun c t ht => ?_) c t h
  · rcases mem_applyOccurrence.mp ht with ht | ⟨_, _, ⟨ht, hne⟩ | ⟨_, ht⟩⟩
    · exact hfollow c t ht
    · exact ⟨(First.sound_first wf).isTerminal_ofSequence wf ht, hne⟩
    · exact hfollow o.owner t ht
  · obtain ⟨_, _, rfl, _⟩ := mem_initial.mp ht
    exact ⟨wf.isTerminal_endOfInput, by decide⟩

end Follow

end PredictiveFrontend

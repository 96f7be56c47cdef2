import PredictiveFrontend.Proofs.Grammar.Follow
import PredictiveFrontend.Proofs.Grammar.GuardedVisits

/-!
# FOLLOW sets are exact

A terminal follows a nonterminal if it stands behind it in some derived form, whatever nonterminal
the form is derived from. Everything that an occurrence asks for is of this kind, so the members of
the FOLLOW sets do follow, under both strategies. With repetition nothing is missing: the sets cover
every derived form.
-/

namespace PredictiveFrontend

namespace Grammar

/-- A terminal follows a nonterminal if it stands behind it in a form that is derived from a single
nonterminal. The end of input follows the nonterminals that stand last in a form derived from the
start symbol. -/
def Follows (g : Grammar) (c t : Code) : Prop :=
  (∃ d before after, g.alphabet.isNonterminal d = true ∧
    g.Derives [d] (before ++ c :: t :: after)) ∨
  (t = Code.endOfInput ∧ ∃ before, g.Derives [g.start] (before ++ [c]))

variable {g : Grammar} {first : SetFamily g.alphabet.size}

/-- An occurrence is brought about by one application of its rule. -/
theorem exists_derives_of_mem_occurrences (wf : g.WellFormed) {o : Occurrence}
    (ho : o ∈ g.occurrences) :
    g.alphabet.isNonterminal o.owner = true ∧
      ∃ before, g.Derives [o.owner] (before ++ o.symbol :: sententialForm o.rest) := by
  obtain ⟨hc, r, hr, howner, before, hrhs⟩ := mem_occurrences.mp ho
  rw [howner]
  refine ⟨wf.lhs_nonterminal r hr, sententialForm before, ?_⟩
  have hsymbol : sententialForm [o.symbol] = [o.symbol] :=
    List.filter_cons_of_pos (by simpa using wf.ne_epsilon_of_isNonterminal hc)
  have hform : sententialForm r.rhs =
      sententialForm before ++ o.symbol :: sententialForm o.rest := by
    rw [hrhs, sententialForm_append, sententialForm_cons, hsymbol]
    rfl
  rw [← hform]
  exact derives_of_mem_rules hr

namespace Follows

/-- What the rest behind an occurrence begins with follows its symbol. -/
theorem of_direct (wf : g.WellFormed) (hfirst : First.Sound g first) {o : Occurrence}
    (ho : o ∈ g.occurrences) {t : Code} (ht : t ∈ First.ofSequence first o.rest)
    (hne : t ≠ Code.epsilon) : g.Follows o.symbol t := by
  obtain ⟨howner, before, hoccurs⟩ := exists_derives_of_mem_occurrences wf ho
  obtain ⟨after, hd⟩ := hfirst.exists_derives_cons ht hne
  have hrest := hd.append_left (before ++ [o.symbol])
  simp only [List.append_assoc, List.singleton_append] at hrest
  exact Or.inl ⟨o.owner, before, after, howner, hoccurs.trans hrest⟩

/-- What follows the owner of an occurrence follows its symbol if the rest in between can vanish. -/
theorem of_inherits (wf : g.WellFormed) (hfirst : First.Sound g first) {o : Occurrence}
    (ho : o ∈ g.occurrences) (he : Code.epsilon ∈ First.ofSequence first o.rest) {t : Code}
    (h : g.Follows o.owner t) : g.Follows o.symbol t := by
  obtain ⟨-, before, hoccurs⟩ := exists_derives_of_mem_occurrences wf ho
  -- The owner derives a form that ends with the symbol, in any context.
  have hlast : g.Derives [o.owner] (before ++ [o.symbol]) := by
    have hrest := (hfirst.derives_nil he).append_left (before ++ [o.symbol])
    simp only [List.append_assoc, List.singleton_append] at hrest
    exact hoccurs.trans hrest
  rcases h with ⟨d, left, right, hd, hform⟩ | ⟨rfl, left, hform⟩
  · have hcontext := hlast.in_context left (t :: right)
    simp only [List.append_assoc, List.cons_append, List.nil_append] at hcontext
    rw [← List.append_assoc] at hcontext
    exact Or.inl ⟨d, left ++ before, right, hd, hform.trans hcontext⟩
  · refine Or.inr ⟨rfl, left ++ before, hform.trans ?_⟩
    rw [List.append_assoc]
    exact hlast.append_left left

/-- The marker of the empty word never follows. -/
theorem ne_epsilon (wf : g.WellFormed) {c t : Code} (h : g.Follows c t) : t ≠ Code.epsilon := by
  rcases h with ⟨d, before, after, hd, hform⟩ | ⟨rfl, -⟩
  · rintro rfl
    have hne := wf.ne_epsilon_of_isNonterminal hd
    have hmem := hform.epsilon_not_mem (by simpa using Ne.symm hne)
    exact hmem (by simp)
  · decide

end Follows

end Grammar

/-! ### Every member follows -/

namespace Follow

variable {g : Grammar} {first follow : SetFamily g.alphabet.size}

/-- The members of the sets follow. -/
def Sound (g : Grammar) (follow : SetFamily g.alphabet.size) : Prop :=
  ∀ c, ∀ t ∈ follow.get c, g.Follows c t

/-- The end of input follows the start symbol, which is all that is known at first. -/
theorem sound_initial (g : Grammar) : Sound g (initial g.start) := by
  intro c t ht
  obtain ⟨rfl, -, rfl, -⟩ := mem_initial.mp ht
  exact Or.inr ⟨rfl, [], .refl⟩

section Strategies

variable (wf : g.WellFormed) (hfirst : First.Sound g first)
include wf hfirst

/-- Repetition keeps the sets sound, occurrence by occurrence. -/
theorem sound_followFixedPoint : Sound g (g.followFixedPoint first) := by
  refine saturate_foldl_induction (P := Sound g) _ (fun o ho follow h => ?_) (sound_initial g)
  intro c t ht
  rcases mem_applyOccurrence.mp ht with ht | ⟨rfl, -, ⟨ht, hne⟩ | ⟨he, ht⟩⟩
  · exact h c t ht
  · exact .of_direct wf hfirst ho ht hne
  · exact .of_inherits wf hfirst ho he (h o.owner t ht)

/-- Visits keep the sets sound, task by task. -/
theorem sound_followGuarded : Sound g (g.followGuarded first) := by
  refine Grammar.followGuarded_induction (P := Sound g) (fun o ho follow h => ?_)
    (fun o ho hi follow h => ?_) (sound_initial g)
  · intro c t ht
    rcases SetFamily.mem_get_add.mp ht with ht | ⟨rfl, -, ht⟩
    · exact h c t ht
    · obtain ⟨ht, hne⟩ := CodeSet.mem_erase.mp ht
      exact .of_direct wf hfirst ho ht hne
  · intro c t ht
    rcases SetFamily.mem_get_add.mp ht with ht | ⟨rfl, -, ht⟩
    · exact h c t ht
    · exact .of_inherits wf hfirst ho (of_decide_eq_true hi) (h o.owner t ht)

/-- Under both strategies the members of the FOLLOW sets follow. -/
theorem sound_follow (strategy : FollowStrategy) : Sound g (g.follow strategy first) := by
  cases strategy with
  | fixedPoint => exact sound_followFixedPoint wf hfirst
  | guardedRecursion => exact sound_followGuarded wf hfirst

end Strategies

/-! ### Everything that follows is a member -/

/-- A terminal behind a nonterminal is in the set of the nonterminal, in every form that is derived
from a covered one. -/
theorem Covers.mem_of_derives (wf : g.WellFormed) (hfirst : First.Closed g first)
    (hfollow : Closed g first follow) {symbols before after : List Code} {c t : Code}
    (hcovers : Covers g first follow symbols) (hlt : ∀ s ∈ symbols, s < g.alphabet.size)
    (he : Code.epsilon ∉ symbols) (hd : g.Derives symbols (before ++ c :: t :: after))
    (hc : g.alphabet.isNonterminal c = true) (ht : g.alphabet.isTerminal t = true) :
    t ∈ follow.get c := by
  have hmem : t ∈ before ++ c :: t :: after := by simp
  have hne : t ≠ Code.epsilon := by
    rintro rfl
    exact hd.epsilon_not_mem he hmem
  have hform : Covers g first follow (before ++ c :: t :: after) :=
    hcovers.of_derives wf hfirst hfollow hd
  refine hform before c (t :: after) rfl hc t ?_ hne
  exact (hfirst.mem_ofSequence_terminal (hd.lt_size wf hlt t hmem) ht hne).mpr rfl

/-- The start symbol in front of the end of input is covered, and so is all that is derived. -/
theorem Closed.mem_of_derives_start (wf : g.WellFormed) (hfirst : First.Closed g first)
    (hfollow : Closed g first follow) {before after : List Code} {c t : Code}
    (hd : g.Derives [g.start, Code.endOfInput] (before ++ c :: t :: after))
    (hc : g.alphabet.isNonterminal c = true) (ht : g.alphabet.isTerminal t = true) :
    t ∈ follow.get c := by
  have hcovers : Covers g first follow [g.start, Code.endOfInput] :=
    .pair hfirst wf.isTerminal_endOfInput (by decide) hfollow.start
  have hstart : g.start < g.alphabet.size := Alphabet.lt_size_of_isNonterminal wf.isNonterminal_start
  have hne := wf.ne_epsilon_of_isNonterminal wf.isNonterminal_start
  refine hcovers.mem_of_derives wf hfirst hfollow ?_ ?_ hd hc ht
  · simpa using ⟨hstart, wf.endOfInput_lt⟩
  · simpa using ⟨Ne.symm hne, by decide⟩

/-- Closed sets hold everything that follows. -/
theorem Closed.mem_of_follows (wf : g.WellFormed) (hfirst : First.Closed g first)
    (hfollow : Closed g first follow) {c t : Code} (hc : g.alphabet.isNonterminal c = true)
    (ht : g.alphabet.isTerminal t = true) (h : g.Follows c t) : t ∈ follow.get c := by
  rcases h with ⟨d, before, after, hd, hform⟩ | ⟨rfl, before, hform⟩
  · have hne := wf.ne_epsilon_of_isNonterminal hd
    refine (Covers.singleton d).mem_of_derives wf hfirst hfollow ?_ ?_ hform hc ht
    · simpa using Alphabet.lt_size_of_isNonterminal hd
    · simpa using Ne.symm hne
  · have hend := hform.append_right [Code.endOfInput]
    rw [List.append_assoc] at hend
    exact hfollow.mem_of_derives_start wf hfirst hend hc ht

/-- Closed sets hold everything that visits take into account. -/
theorem Closed.mem_of_followGuarded (hfollow : Closed g first follow) {c t : Code}
    (h : t ∈ (g.followGuarded first).get c) : t ∈ follow.get c := by
  refine Grammar.followGuarded_induction (P := fun follow' : SetFamily g.alphabet.size =>
    ∀ c t, t ∈ follow'.get c → t ∈ follow.get c) (fun o ho follow' h' c t ht => ?_)
    (fun o ho hi follow' h' c t ht => ?_) (fun c t ht => ?_) c t h
  · obtain ⟨hsymbol, r, hr, -, before, hrhs⟩ := Grammar.mem_occurrences.mp ho
    rcases SetFamily.mem_get_add.mp ht with ht | ⟨rfl, -, ht⟩
    · exact h' c t ht
    · obtain ⟨ht, hne⟩ := CodeSet.mem_erase.mp ht
      exact hfollow.direct r hr before o.symbol o.rest hrhs hsymbol t ht hne
  · obtain ⟨hsymbol, r, hr, howner, before, hrhs⟩ := Grammar.mem_occurrences.mp ho
    rcases SetFamily.mem_get_add.mp ht with ht | ⟨rfl, -, ht⟩
    · exact h' c t ht
    · refine hfollow.inherit r hr before o.symbol o.rest hrhs hsymbol (of_decide_eq_true hi) t ?_
      rw [← howner]
      exact h' o.owner t ht
  · obtain ⟨rfl, -, rfl, -⟩ := mem_initial.mp ht
    exact hfollow.start

/-- Under both strategies the members of the FOLLOW sets are found by repetition as well. -/
theorem mem_followFixedPoint_of_mem_follow (wf : g.WellFormed) (strategy : FollowStrategy)
    {c t : Code} (h : t ∈ (g.follow strategy first).get c) :
    t ∈ (g.follow .fixedPoint first).get c := by
  cases strategy with
  | fixedPoint => exact h
  | guardedRecursion => exact (closed_followFixedPoint wf first).mem_of_followGuarded h

end Follow

namespace Grammar

/-- The FOLLOW set of a nonterminal by repetition holds exactly the terminals that follow it. -/
theorem mem_follow_fixedPoint_iff {g : Grammar} (wf : g.WellFormed) {c t : Code}
    (hc : g.alphabet.isNonterminal c = true) (ht : g.alphabet.isTerminal t = true) :
    t ∈ (g.follow .fixedPoint g.first).get c ↔ g.Follows c t :=
  ⟨Follow.sound_follow wf (First.sound_first wf) .fixedPoint c t,
    (Follow.closed_followFixedPoint wf g.first).mem_of_follows wf (First.closed_first wf) hc ht⟩

/-- The marker of the empty word is in no FOLLOW set, under both strategies. -/
theorem epsilon_not_mem_follow {g : Grammar} (wf : g.WellFormed) (strategy : FollowStrategy)
    (c : Code) : Code.epsilon ∉ (g.follow strategy g.first).get c := by
  intro he
  exact (Follow.sound_follow wf (First.sound_first wf) strategy c _ he).ne_epsilon wf rfl

/-- For every grammar text that is read, the repetition ends, and the FOLLOW set of a nonterminal
holds exactly the terminals that follow it. So it holds every terminal that stands behind it in a
form derived from the start symbol in front of the end of input, and never the marker of the empty
word. -/
theorem follow_exact {text : String} {g : Grammar} (h : Grammar.ofText text = .ok g) :
    (∃ n, (Follow.round g.first g.occurrences)^[n] (Follow.initial g.start) =
        g.follow .fixedPoint g.first ∧
      Follow.round g.first g.occurrences (g.follow .fixedPoint g.first) =
        g.follow .fixedPoint g.first) ∧
    (∀ c t, g.alphabet.isNonterminal c = true → g.alphabet.isTerminal t = true →
      (t ∈ (g.follow .fixedPoint g.first).get c ↔ g.Follows c t) ∧
      ∀ before after, g.Derives [g.start, Code.endOfInput] (before ++ c :: t :: after) →
        t ∈ (g.follow .fixedPoint g.first).get c) ∧
    ∀ c, Code.epsilon ∉ (g.follow .fixedPoint g.first).get c := by
  have wf := wellFormed_of_ofText h
  have hfirst := First.closed_first wf
  have hfollow := Follow.closed_followFixedPoint wf g.first
  refine ⟨?_, fun c t hc ht => ⟨mem_follow_fixedPoint_iff wf hc ht, fun before after hd => ?_⟩,
    epsilon_not_mem_follow wf .fixedPoint⟩
  · obtain ⟨n, hn⟩ := exists_iterate_eq_saturate
      (Follow.round_lowersRank g.first g.occurrences) (Follow.initial g.start)
    exact ⟨n, hn, step_saturate _ _⟩
  · exact hfollow.mem_of_derives_start wf hfirst hd hc ht

/-- Two nonterminals that inherit from each other in front of a rest that can vanish, and one that
is not derived from the start symbol. -/
def cyclicText : String :=
  "S -> A x\nA -> B N\nB -> A | y\nN -> n | EPSILON\nT -> A v"

/-- The grammar of that text; `x` has code 4, `n` code 8 and `v` code 10. -/
def cyclic : Grammar where
  alphabet := ⟨["EPSILON", "$", "S", "A", "x", "B", "N", "y", "n", "T", "v"]⟩
  rules := [⟨0, 2, [3, 4]⟩, ⟨1, 3, [5, 6]⟩, ⟨2, 5, [3]⟩, ⟨3, 5, [7]⟩, ⟨4, 6, [8]⟩, ⟨5, 6, [0]⟩,
    ⟨6, 9, [3, 10]⟩]
  start := 2

/-- Behind `A` stands `n` by way of `B`, and `v` in a form that is not derived from the start
symbol; the end of input never does. -/
theorem follow_exact_cyclic :
    Grammar.ofText cyclicText = .ok cyclic ∧ cyclic.Follows 3 8 ∧ cyclic.Follows 3 10 ∧
      ¬cyclic.Follows 3 Code.endOfInput ∧
      cyclic.Derives [cyclic.start, Code.endOfInput] [3, 4, Code.endOfInput] ∧
      4 ∈ (cyclic.follow .fixedPoint cyclic.first).get 3 := by
  have h : Grammar.ofText cyclicText = .ok cyclic := by decide +kernel
  have hfollow := (follow_exact h).2.1
  have hderives : cyclic.Derives [cyclic.start, Code.endOfInput] [3, 4, Code.endOfInput] :=
    .single (.apply ⟨0, 2, [3, 4]⟩ [] [Code.endOfInput] (by decide))
  refine ⟨h, ?_, ?_, ?_, hderives, ?_⟩
  · exact (hfollow 3 8 (by decide) (by decide)).1.mp (by decide +kernel)
  · exact (hfollow 3 10 (by decide) (by decide)).1.mp (by decide +kernel)
  · rw [← (hfollow 3 Code.endOfInput (by decide) (by decide)).1]
    decide +kernel
  · exact (hfollow 3 4 (by decide) (by decide)).2 [] [Code.endOfInput] hderives

end Grammar

end PredictiveFrontend

import PredictiveFrontend.Proofs.Derivation.Run
import PredictiveFrontend.Proofs.Grammar.Follow
import PredictiveFrontend.Proofs.Grammar.Prediction

/-!
# Derivations direct the machine

If conflicts are refused and the FOLLOW sets are complete, one lookahead is enough. Suppose that
the symbols on top of the stack have a leftmost derivation to a form that begins with the next
terminal, or that vanishes where the next terminal may follow. Then the machine applies the rules of
this derivation one by one until the terminal is on top, since each of them is the one predicted.
-/

namespace PredictiveFrontend

namespace CompiledGrammar

variable {g : CompiledGrammar}

namespace CompiledBy

variable {options : CompileOptions}

theorem closed_first (hg : g.CompiledBy options) : First.Closed g.toGrammar g.first := by
  rw [hg.first_eq]
  exact First.closed_first hg.wellFormed

theorem sound_first (hg : g.CompiledBy options) : First.Sound g.toGrammar g.first := by
  rw [hg.first_eq]
  exact First.sound_first hg.wellFormed

theorem closed_follow (hg : g.CompiledBy options)
    (hstrategy : options.followStrategy = .fixedPoint) :
    Follow.Closed g.toGrammar g.first g.follow := by
  rw [hg.follow_eq, hstrategy]
  exact Follow.closed_followFixedPoint hg.wellFormed g.first

theorem isTerminal_of_mem_follow (hg : g.CompiledBy options)
    (hstrategy : options.followStrategy = .fixedPoint) {c t : Code} (h : t ∈ g.follow.get c) :
    g.alphabet.isTerminal t = true ∧ t ≠ Code.epsilon := by
  rw [hg.follow_eq, hstrategy, hg.first_eq] at h
  exact Follow.isTerminal_of_mem_followFixedPoint hg.wellFormed h

end CompiledBy

/-- What the symbols behind a nonterminal begin with may follow it. -/
def Followed (g : CompiledGrammar) (symbols : List Code) : Prop :=
  ∀ before c rest, symbols = before ++ c :: rest → g.alphabet.isNonterminal c = true →
    ∀ t ∈ First.ofSequence g.first rest, t ≠ Code.epsilon → t ∈ g.follow.get c

namespace Followed

theorem of_cons {c : Code} {rest : List Code} (h : g.Followed (c :: rest)) : g.Followed rest := by
  have hcovers : Follow.Covers g.toGrammar g.first g.follow ([c] ++ rest) := h
  exact hcovers.of_append

/-- Nothing is behind a single symbol. -/
theorem singleton (c : Code) : g.Followed [c] :=
  Follow.Covers.singleton c

/-- A terminal may stand behind a symbol that it follows. -/
theorem pair (hfirst : First.Closed g.toGrammar g.first) {c t : Code}
    (ht : g.alphabet.isTerminal t = true) (hne : t ≠ Code.epsilon) (h : t ∈ g.follow.get c) :
    g.Followed [c, t] :=
  Follow.Covers.pair hfirst ht hne h

/-- Expanding a leading nonterminal by one of its rules keeps what may follow. -/
theorem expand {options : CompileOptions} (hg : g.CompiledBy options)
    (hstrategy : options.followStrategy = .fixedPoint) {r : Rule} (hr : r ∈ g.rules)
    {rest : List Code} (h : g.Followed (r.lhs :: rest)) : g.Followed (r.expansion ++ rest) :=
  Follow.Covers.expand hg.wellFormed hg.closed_first (hg.closed_follow hstrategy) hr h

end Followed

/-- A rule whose expansion brings up a terminal, in front of what may follow, is predicted. -/
theorem CompiledBy.predicted?_of_mem_first {options : CompileOptions} (hg : g.CompiledBy options)
    (hpolicy : options.conflictPolicy = .reject) {r : Rule} (hr : r ∈ g.rules) {rest : List Code}
    (hf : g.Followed (r.lhs :: rest)) {t : Code} (hne : t ≠ Code.epsilon)
    (ht : t ∈ First.ofSequence g.first (r.expansion ++ rest)) :
    g.predicted? r.lhs t = some r := by
  have hrhs : ∀ x, x ∈ First.ofSequence g.first r.expansion ↔
      x ∈ First.ofSequence g.first r.rhs := fun x =>
    hg.closed_first.mem_ofSequence_sententialForm hg.wellFormed
  refine hg.predicted?_of_mem_predict hpolicy hr (Rule.mem_predict.mpr ?_)
  rcases First.mem_ofSequence_append.mp ht with ⟨ht, _⟩ | ⟨he, ht⟩
  · exact Or.inl ⟨(hrhs t).mp ht, hne⟩
  · refine Or.inr ⟨(hrhs _).mp he, ?_⟩
    exact hf [] r.lhs rest rfl (hg.wellFormed.lhs_nonterminal r hr) t ht hne

/-- A leftmost derivation leads from symbols to a form, and the symbols have nothing behind them
that may not follow. -/
structure Directed (g : CompiledGrammar) (after form : List Code) (numbers : List Nat)
    (symbols : List Code) : Prop where
  /-- The rules of the numbers lead to the form. -/
  derives : g.deriveLeftmost? symbols numbers = some form
  /-- What comes after the symbols may follow them. -/
  followed : g.Followed (symbols ++ after)

end CompiledGrammar

namespace Machine

variable {g : CompiledGrammar} {options : CompileOptions} {strict : Bool}

section Directed

variable (hg : g.CompiledBy options) (hpolicy : options.conflictPolicy = .reject)
  (hstrategy : options.followStrategy = .fixedPoint)
include hg hpolicy hstrategy

/-- The first rule of a derivation that brings up the next terminal is the one predicted, and what
is left of the derivation directs the symbols that it leads to. -/
theorem exists_predicted?_of_directed {t : Code} (hlt : t < g.alphabet.size)
    (ht : g.alphabet.isTerminal t = true) (hne : t ≠ Code.epsilon) {after form rest : List Code}
    {c : Code} {number : Nat} {numbers : List Nat}
    (h : g.Directed after form (number :: numbers) (c :: rest))
    (hhead : (form ++ after).head? = some t) (hc : g.alphabet.isTerminal c = false) :
    ∃ r, g.predicted? c t = some r ∧ r.number = number ∧
      g.Directed after form numbers (r.expansion ++ rest) := by
  obtain ⟨middle, hm, hn⟩ := Grammar.deriveLeftmost?_cons.mp h.derives
  obtain ⟨r, hr, rfl, rfl⟩ := (Grammar.expandLeftmost?_cons_nonterminal hc).mp hm
  have hmem : r ∈ g.rules := List.mem_of_getElem? hr
  have hfirst : t ∈ First.ofSequence g.first (r.expansion ++ (rest ++ after)) := by
    obtain ⟨tail, hform⟩ := List.head?_eq_some_iff.mp hhead
    have hderives := (Grammar.derives_of_deriveLeftmost? hn).append_right after
    rw [hform, List.append_assoc] at hderives
    exact hg.closed_first.mem_of_derives hg.wellFormed hderives
      ((hg.closed_first.mem_ofSequence_terminal hlt ht hne).mpr rfl)
  refine ⟨r, hg.predicted?_of_mem_first hpolicy hmem h.followed hne hfirst,
    hg.wellFormed.number number r hr, hn, ?_⟩
  rw [List.append_assoc]
  exact CompiledGrammar.Followed.expand hg hstrategy hmem h.followed

/-- A leftmost derivation that brings up the next terminal is followed by the machine until the
terminal is on top of the stack, or on top of what comes after the derived symbols. -/
theorem exists_reachesBy_of_directed {t : Code} (hlt : t < g.alphabet.size)
    (ht : g.alphabet.isTerminal t = true) (hne : t ≠ Code.epsilon)
    (hstrict : t = Code.endOfInput → strict = true) {after form symbols : List Code}
    {numbers : List Nat} (h : g.Directed after form numbers symbols)
    (hhead : (form ++ after).head? = some t) (below input : List Code) (applied : List Rule)
    (consumed : Nat) :
    ∃ used left symbols' applied', numbers = used ++ left ∧
      g.Directed after form left symbols' ∧ (symbols' ++ after).head? = some t ∧
      ReachesBy g strict used ⟨symbols ++ below, t :: input, applied, consumed⟩
        ⟨symbols' ++ below, t :: input, applied', consumed⟩ := by
  induction numbers generalizing symbols applied with
  | nil =>
    obtain rfl : symbols = form := Option.some.inj h.derives
    exact ⟨[], [], symbols, applied, rfl, h, hhead, .refl _⟩
  | cons number numbers ih =>
    cases symbols with
    | nil => cases (Grammar.deriveLeftmost?_nil.mp h.derives).1
    | cons c rest =>
      cases hc : g.alphabet.isTerminal c with
      | true =>
        -- A leading terminal stays to the end of the derivation, so it is the next one.
        obtain ⟨form', -, rfl⟩ := (Grammar.deriveLeftmost?_cons_terminal hc).mp h.derives
        exact ⟨[], _, c :: rest, applied, rfl, h, hhead, .refl _⟩
      | false =>
        obtain ⟨r, hr, rfl, h'⟩ :=
          exists_predicted?_of_directed hg hpolicy hstrategy hlt ht hne h hhead hc
        obtain ⟨used, left, symbols', applied', rfl, hd, hhead', hreach⟩ := ih h' (r :: applied)
        have hstep := ReachesBy.expand hc hstrict hr (rest ++ below) input applied consumed
        rw [List.append_assoc] at hreach
        exact ⟨r.number :: used, left, symbols', applied', rfl, hd, hhead', hstep.trans hreach⟩

end Directed

end Machine

end PredictiveFrontend

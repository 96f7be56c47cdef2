import PredictiveFrontend.Proofs.Derivation.Termination
import PredictiveFrontend.Proofs.Grammar.LeftRecursion
import PredictiveFrontend.Proofs.Grammar.Table

/-!
# The machine with incomplete FOLLOW sets

Guarded visits can miss a terminal that follows a nonterminal, and with it a conflict. If conflicts
are refused, what a missed terminal does to the machine is limited: a nonterminal that the lookahead
begins never vanishes, and one that it does not begin either vanishes as it should or is rejected.
So the machine can only go on forever by way of a nonterminal that is left-recursive and can vanish,
in front of a terminal that begins it and that the visits missed behind it.
-/

namespace PredictiveFrontend

/-- A terminal that follows a nonterminal but is not in its FOLLOW set. -/
def CompiledGrammar.Misses (g : CompiledGrammar) (c t : Code) : Prop :=
  t ∈ (g.toGrammar.follow .fixedPoint g.first).get c ∧ t ∉ g.follow.get c

namespace CompiledGrammar.CompiledBy

variable {g : CompiledGrammar} {options : CompileOptions}

/-- Nothing but a terminal of the alphabet, other than the empty word, predicts a rule. -/
theorem isTerminal_of_predicted? (hg : g.CompiledBy options) {c t : Code} {r : Rule}
    (hr : g.predicted? c t = some r) :
    g.alphabet.isTerminal t = true ∧ t < g.alphabet.size ∧ t ≠ Code.epsilon := by
  obtain ⟨-, -, hpredict⟩ := hg.of_predicted? hr
  have hne : t ≠ Code.epsilon := fun he => hg.epsilon_not_mem_predict r (he ▸ hpredict)
  rcases Rule.mem_predict.mp hpredict with ⟨hfirst, -⟩ | ⟨-, hfollow⟩
  · have ht := hg.sound_first.isTerminal_ofSequence hg.wellFormed hfirst
    exact ⟨ht, CodeSet.lt_of_mem hfirst, hne⟩
  · rw [hg.follow_eq] at hfollow
    have hfixed := Follow.mem_followFixedPoint_of_mem_follow hg.wellFormed _ hfollow
    rw [hg.first_eq] at hfixed
    have ht := Follow.isTerminal_of_mem_followFixedPoint hg.wellFormed hfixed
    exact ⟨ht.1, CodeSet.lt_of_mem hfollow, hne⟩

/-- The right side of a rule begins alike with and without markers of the empty word. -/
theorem mem_first_expansion_iff (hg : g.CompiledBy options) {r : Rule} {t : Code} :
    t ∈ First.ofSequence g.first r.expansion ↔ t ∈ First.ofSequence g.first r.rhs :=
  hg.closed_first.mem_ofSequence_sententialForm hg.wellFormed

/-- What begins a nonterminal begins one of its rules, and it is this rule that is predicted. -/
theorem mem_first_expansion_of_predicted? (hg : g.CompiledBy options)
    (hpolicy : options.conflictPolicy = .reject) {c t : Code} {r : Rule}
    (hr : g.predicted? c t = some r) (ht : t ∈ g.first.get c) :
    t ∈ First.ofSequence g.first r.expansion := by
  obtain ⟨hmem, hl, -⟩ := hg.of_predicted? hr
  have hc := hg.wellFormed.lhs_nonterminal r hmem
  rw [hl] at hc
  obtain ⟨hterminal, hlt, hne⟩ := hg.isTerminal_of_predicted? hr
  have hform : Grammar.sententialForm [c] = [c] :=
    Grammar.sententialForm_eq_self
      (by simpa using (hg.wellFormed.ne_epsilon_of_isNonterminal hc).symm)
  rw [← First.ofSequence_singleton] at ht
  obtain ⟨rest, hd⟩ := hg.sound_first.exists_derives_cons ht hne
  rw [hform] at hd
  rcases hd.singleton_cases with he | ⟨r', hr', hl', hd'⟩
  · obtain ⟨rfl, -⟩ := List.cons.inj he
    rw [Alphabet.isTerminal_eq_false.mpr hc] at hterminal
    cases hterminal
  · have hfirst : t ∈ First.ofSequence g.first r'.expansion :=
      hg.closed_first.mem_of_derives hg.wellFormed hd'
        ((hg.closed_first.mem_ofSequence_terminal hlt hterminal hne).mpr rfl)
    have hp := hg.predicted?_of_mem_predict hpolicy hr'
      (Rule.mem_predict.mpr (Or.inl ⟨hg.mem_first_expansion_iff.mp hfirst, hne⟩))
    rw [hl', hr] at hp
    obtain rfl := Option.some.inj hp
    exact hfirst

/-- Suppose that a rule brings up a terminal in front of what may follow. If another rule of the
same nonterminal is predicted, the nonterminal can vanish and begins with the terminal, which was
missed behind it. -/
theorem misses_of_predicted? (hg : g.CompiledBy options)
    (hpolicy : options.conflictPolicy = .reject) {t : Code} {r r' : Rule} (hmem : r ∈ g.rules)
    (hr' : g.predicted? r.lhs t = some r') (hne : r' ≠ r) {rest : List Code}
    (hcovers : Follow.Covers g.toGrammar g.first (g.toGrammar.follow .fixedPoint g.first)
      (r.lhs :: rest))
    (ht : t ∈ First.ofSequence g.first (r.expansion ++ rest)) :
    Code.epsilon ∈ g.first.get r.lhs ∧ t ∈ g.first.get r.lhs ∧ g.Misses r.lhs t := by
  have hepsilon := (hg.isTerminal_of_predicted? hr').2.2
  have hnot : t ∉ r.predict g.first g.follow := by
    intro hpredict
    rw [hg.predicted?_of_mem_predict hpolicy hmem hpredict] at hr'
    exact hne (Option.some.inj hr').symm
  rw [Rule.mem_predict, not_or, not_and, not_and] at hnot
  obtain ⟨hvanish, hrest⟩ : Code.epsilon ∈ First.ofSequence g.first r.rhs ∧
      t ∈ First.ofSequence g.first rest := by
    rw [← hg.mem_first_expansion_iff]
    rcases First.mem_ofSequence_append.mp ht with ht | ht
    · exact absurd ht.2 (hnot.1 (hg.mem_first_expansion_iff.mp ht.1))
    · exact ht
  have hfollow := hnot.2 hvanish
  have hfixed := hcovers [] r.lhs rest rfl (hg.wellFormed.lhs_nonterminal r hmem) t hrest hepsilon
  refine ⟨hg.closed_first.rule r hmem _ hvanish, ?_, hfixed, hfollow⟩
  obtain ⟨hmem', hl, hpredict⟩ := hg.of_predicted? hr'
  rw [← hl] at hfollow ⊢
  rcases Rule.mem_predict.mp hpredict with ⟨hfirst, -⟩ | ⟨-, hf⟩
  · exact hg.closed_first.rule r' hmem' t hfirst
  · exact absurd hf hfollow

end CompiledGrammar.CompiledBy

namespace Machine

variable {g : CompiledGrammar} {options : CompileOptions} {strict : Bool}

/-- With some symbols on top the machine comes to an end, provided that it does so below them. It
gets there only if the symbols can vanish and do not begin with the next terminal. -/
def Settles (g : CompiledGrammar) (strict : Bool) (t : Code) (input symbols : List Code) : Prop :=
  ∀ stack, (Code.epsilon ∈ First.ofSequence g.first symbols →
      t ∉ First.ofSequence g.first symbols →
      ∀ applied consumed, Halts g strict ⟨stack, t :: input, applied, consumed⟩) →
    ∀ applied consumed, Halts g strict ⟨symbols ++ stack, t :: input, applied, consumed⟩

namespace Settles

variable {t : Code} {input : List Code}

theorem nil (wf : g.toGrammar.WellFormed) (hne : t ≠ Code.epsilon) :
    Settles g strict t input [] := by
  intro stack hbelow
  refine hbelow (First.mem_ofSequence_nil.mpr ⟨rfl, wf.epsilon_lt⟩) fun ht => ?_
  exact hne (First.mem_ofSequence_nil.mp ht).1

/-- Behind a part that vanishes the machine has to settle the rest. -/
theorem append {u v : List Code} (hu : Settles g strict t input u)
    (hv : Code.epsilon ∈ First.ofSequence g.first u → t ∉ First.ofSequence g.first u →
      Settles g strict t input v) : Settles g strict t input (u ++ v) := by
  intro stack hbelow applied consumed
  rw [List.append_assoc]
  refine hu (v ++ stack) (fun heu htu => hv heu htu stack fun hev htv => hbelow ?_ ?_) applied
    consumed
  · exact First.mem_ofSequence_append.mpr (Or.inr ⟨heu, hev⟩)
  · intro ht
    rcases First.mem_ofSequence_append.mp ht with ht | ht
    · exact htu ht.1
    · exact htv ht.2

section

variable (hinput : ∀ stack applied consumed, Halts g strict ⟨stack, input, applied, consumed⟩)
include hinput

/-- A terminal on top is read or rejected. -/
theorem of_terminal {c : Code} (hc : g.alphabet.isTerminal c = true) (rest : List Code) :
    Settles g strict t input (c :: rest) := by
  intro stack hbelow applied consumed
  by_cases he : c = t
  · subst he
    exact .of_reaches (.single (.read c (rest ++ stack) input applied consumed hc)) (hinput ..)
  · refine .of_forall_not_transition fun s' hs => ?_
    cases hs with
    | read => exact he rfl
    | expand _ _ _ _ _ _ r hc' => rw [hc] at hc'; cases hc'

end

/-- A nonterminal on top settles if the right side does that is predicted for it. -/
theorem of_predicted? (hg : g.CompiledBy options) (hpolicy : options.conflictPolicy = .reject)
    {c : Code} {rest : List Code} (hc : g.alphabet.isTerminal c = false)
    (h : ∀ r, g.predicted? c t = some r → Settles g strict t input (r.expansion ++ rest)) :
    Settles g strict t input (c :: rest) := by
  intro stack hbelow applied consumed
  rw [List.cons_append]
  by_cases hgo : ∃ s', Transition g strict ⟨c :: (rest ++ stack), t :: input, applied, consumed⟩ s'
  · obtain ⟨s', hs⟩ := hgo
    cases hs with
    | read _ _ _ _ _ hc' =>
      rw [hc] at hc'
      cases hc'
    | expand _ _ _ _ _ _ r _ hstrict hr =>
      have hsettles := h r hr stack fun he ht => hbelow ?_ ?_
      · rw [List.append_assoc] at hsettles
        refine .of_reaches (.single (.expand _ _ _ _ applied consumed r hc hstrict hr)) ?_
        exact hsettles (r :: applied) consumed
      · obtain ⟨hmem, rfl, -⟩ := hg.of_predicted? hr
        rcases First.mem_ofSequence_append.mp he with he | ⟨he, hrest⟩
        · exact absurd rfl he.2
        · refine First.mem_ofSequence_cons.mpr (Or.inr ⟨?_, hrest⟩)
          exact hg.closed_first.rule r hmem _ (hg.mem_first_expansion_iff.mp he)
      · intro hfirst
        have hne := (hg.isTerminal_of_predicted? hr).2.2
        refine ht (First.mem_ofSequence_append.mpr ?_)
        rcases First.mem_ofSequence_cons.mp hfirst with ⟨hfirst, -⟩ | ⟨-, hrest⟩
        · exact Or.inl ⟨hg.mem_first_expansion_of_predicted? hpolicy hr hfirst, hne⟩
        · rcases First.mem_ofSequence_append.mp he with he | he
          · exact absurd rfl he.2
          · exact Or.inr ⟨he.1, hrest⟩
  · exact .of_forall_not_transition fun s' hs => hgo ⟨s', hs⟩

end Settles

section Seen

variable (hg : g.CompiledBy options) (hpolicy : options.conflictPolicy = .reject) {t : Code}
  {input : List Code}
  (hinput : ∀ stack applied consumed, Halts g strict ⟨stack, input, applied, consumed⟩)
include hg hpolicy hinput

/-- A symbol that is not left-recursive settles if all symbols do that it leads to: none of these
leads back. -/
private theorem settles_of_not_leftRecursive {c : Code} (hc : ¬g.LeftRecursive c)
    (ih : ∀ d, g.LeadsTo c d → ¬g.LeadsTo d c → Settles g strict t input [d]) :
    Settles g strict t input [c] := by
  cases hterminal : g.alphabet.isTerminal c with
  | true => exact .of_terminal hinput hterminal []
  | false =>
    refine .of_predicted? hg hpolicy hterminal fun r hr => ?_
    rw [List.append_nil]
    obtain ⟨hmem, hl, -⟩ := hg.of_predicted? hr
    have hne := (hg.isTerminal_of_predicted? hr).2.2
    -- What is left of the right side, once its front has vanished, is derived from it.
    have hform : ∀ symbols, g.Derives r.expansion symbols → Settles g strict t input symbols := by
      intro symbols
      induction symbols with
      | nil => exact fun _ => .nil hg.wellFormed hne
      | cons d rest ihRest =>
        intro hd
        have hlead : g.LeadsTo c d := ⟨r, hmem, hl, rest, hd⟩
        have hfront := ih d hlead fun hback => hc (hlead.trans hback)
        refine hfront.append (u := [d]) fun he _ => ihRest ?_
        have hvanish := (hg.sound_first.derives_nil he).append_right rest
        have hd₀ : d ≠ Code.epsilon := by
          rintro rfl
          exact hd.epsilon_not_mem (Grammar.epsilon_not_mem_sententialForm _)
            (List.mem_cons_self ..)
        rw [Grammar.sententialForm_eq_self (by simpa using hd₀.symm)] at hvanish
        exact hd.trans hvanish
    exact hform _ .refl

variable (hseen : ∀ c, g.LeftRecursive c → Code.epsilon ∈ g.first.get c → t ∈ g.first.get c →
  ¬g.Misses c t)
include hseen

/-- A derivation that brings up the next terminal directs the machine, except where it makes a
symbol vanish that the terminal begins. Then the terminal was missed behind the symbol, so this is
not left-recursive and leads back to no left-recursive one. -/
private theorem settles_of_deriveLeftmost? {c : Code} (hc : g.LeftRecursive c)
    (ih : ∀ d, g.LeadsTo c d → ¬g.LeadsTo d c → Settles g strict t input [d])
    (hterminal : g.alphabet.isTerminal t = true) (hlt : t < g.alphabet.size)
    (hne : t ≠ Code.epsilon) (after : List Code) {form symbols : List Code} {numbers : List Nat}
    (hlead : g.Derives [c] symbols)
    (hcovers : Follow.Covers g.toGrammar g.first (g.toGrammar.follow .fixedPoint g.first)
      (symbols ++ after))
    (hd : g.deriveLeftmost? symbols numbers = some form) (hhead : (form ++ after).head? = some t) :
    Settles g strict t input symbols := by
  induction numbers generalizing symbols with
  | nil =>
    cases hd
    cases form with
    | nil => exact .nil hg.wellFormed hne
    | cons d rest =>
      obtain rfl : d = t := Option.some.inj hhead
      exact .of_terminal hinput hterminal rest
  | cons number numbers ihNumbers =>
    cases symbols with
    | nil => cases (Grammar.deriveLeftmost?_nil.mp hd).1
    | cons d rest =>
      cases hdt : g.alphabet.isTerminal d with
      | true => exact .of_terminal hinput hdt rest
      | false =>
        obtain ⟨middle, hm, hn⟩ := Grammar.deriveLeftmost?_cons.mp hd
        obtain ⟨r, hr, rfl, rfl⟩ := (Grammar.expandLeftmost?_cons_nonterminal hdt).mp hm
        have hmem : r ∈ g.rules := List.mem_of_getElem? hr
        have hrest := ihNumbers
          (hlead.trans ((Grammar.derives_of_mem_rules hmem).append_right rest))
          (by
            rw [List.append_assoc]
            exact Follow.Covers.expand hg.wellFormed hg.closed_first
              (Follow.closed_followFixedPoint hg.wellFormed g.first) hmem hcovers) hn
        by_cases hagree : ∀ r', g.predicted? r.lhs t = some r' → r' = r
        · refine .of_predicted? hg hpolicy hdt fun r' hr' => ?_
          obtain rfl := hagree r' hr'
          exact hrest
        · push Not at hagree
          obtain ⟨r', hr', hother⟩ := hagree
          have hfirst : t ∈ First.ofSequence g.first (r.expansion ++ (rest ++ after)) := by
            obtain ⟨tail, hform⟩ := List.head?_eq_some_iff.mp hhead
            have hderives := (Grammar.derives_of_deriveLeftmost? hn).append_right after
            rw [hform, List.append_assoc] at hderives
            exact hg.closed_first.mem_of_derives hg.wellFormed hderives
              ((hg.closed_first.mem_ofSequence_terminal hlt hterminal hne).mpr rfl)
          obtain ⟨hvanish, hbegins, hmisses⟩ :=
            hg.misses_of_predicted? hpolicy hmem hr' hother hcovers hfirst
          have hnot : ¬g.LeftRecursive r.lhs := fun h => hseen r.lhs h hvanish hbegins hmisses
          have hdown : g.LeadsTo c r.lhs := .of_derives hlead fun he => hnot (he ▸ hc)
          have hfront := ih r.lhs hdown fun hback => hnot (hback.trans hdown)
          refine hfront.append (u := [r.lhs]) fun _ hbegins' => ?_
          rw [First.ofSequence_singleton] at hbegins'
          exact absurd hbegins hbegins'

/-- A left-recursive symbol settles if all symbols do that it leads to and that do not lead back: a
derivation shows what its predicted rule is good for. -/
private theorem settles_of_leftRecursive {c : Code} (hc : g.LeftRecursive c)
    (ih : ∀ d, g.LeadsTo c d → ¬g.LeadsTo d c → Settles g strict t input [d]) :
    Settles g strict t input [c] := by
  have hnonterminal : g.alphabet.isNonterminal c = true := by
    obtain ⟨r, hmem, rfl, -⟩ := hc
    exact hg.wellFormed.lhs_nonterminal r hmem
  refine .of_predicted? hg hpolicy (Alphabet.isTerminal_eq_false.mpr hnonterminal) fun r hr => ?_
  rw [List.append_nil]
  obtain ⟨hmem, rfl, hpredict⟩ := hg.of_predicted? hr
  obtain ⟨hterminal, hlt, hne⟩ := hg.isTerminal_of_predicted? hr
  have hlead := Grammar.derives_of_mem_rules hmem
  have hcovers : ∀ {after}, Follow.Covers g.toGrammar g.first
      (g.toGrammar.follow .fixedPoint g.first) (r.lhs :: after) →
      Follow.Covers g.toGrammar g.first (g.toGrammar.follow .fixedPoint g.first)
        (r.expansion ++ after) :=
    Follow.Covers.expand hg.wellFormed hg.closed_first
      (Follow.closed_followFixedPoint hg.wellFormed g.first) hmem
  rcases Rule.mem_predict.mp hpredict with ⟨hfirst, -⟩ | ⟨hvanish, hfollow⟩
  · obtain ⟨numbers, form, hd⟩ :=
      (Grammar.starts_of_ne hne).mp (hg.sound_first.starts_ofSequence hfirst)
    exact settles_of_deriveLeftmost? hg hpolicy hinput hseen hc ih hterminal hlt hne [] hlead
      (hcovers (.singleton r.lhs)) hd rfl
  · obtain ⟨numbers, hd⟩ :=
      Grammar.starts_epsilon.mp (hg.sound_first.starts_ofSequence hvanish)
    rw [hg.follow_eq] at hfollow
    have hfixed := Follow.mem_followFixedPoint_of_mem_follow hg.wellFormed _ hfollow
    exact settles_of_deriveLeftmost? hg hpolicy hinput hseen hc ih hterminal hlt hne [t] hlead
      (hcovers (.pair hg.closed_first hterminal hne hfixed)) hd rfl

/-- Every symbol settles. -/
private theorem settles (c : Code) : Settles g strict t input [c] := by
  -- The symbols that a symbol leads to are fewer unless they lead back.
  induction hn : (g.toGrammar.leaders c).card using Nat.strong_induction_on generalizing c with
  | _ n ih =>
    subst hn
    cases hterminal : g.alphabet.isTerminal c with
    | true => exact .of_terminal hinput hterminal []
    | false =>
      have hc := Alphabet.lt_size_of_isNonterminal (Alphabet.isTerminal_eq_false.mp hterminal)
      have ih' : ∀ d, g.LeadsTo c d → ¬g.LeadsTo d c → Settles g strict t input [d] :=
        fun d hlead hback => ih _ (Grammar.card_leaders_lt hc hlead hback) d rfl
      by_cases hleft : g.LeftRecursive c
      · exact settles_of_leftRecursive hg hpolicy hinput hseen hleft ih'
      · exact settles_of_not_leftRecursive hg hpolicy hinput hleft ih'

end Seen

/-- If conflicts are refused and nothing was missed that begins and follows a left-recursive
nonterminal that can vanish, the machine comes to an end from every state. -/
theorem halts_of_not_misses (hg : g.CompiledBy options)
    (hpolicy : options.conflictPolicy = .reject)
    (hseen : ∀ c t, g.LeftRecursive c → Code.epsilon ∈ g.first.get c → t ∈ g.first.get c →
      ¬g.Misses c t) (stack input : List Code) (applied : List Rule) (consumed : Nat) :
    Halts g strict ⟨stack, input, applied, consumed⟩ := by
  induction input generalizing stack applied consumed with
  | nil =>
    refine .of_forall_not_transition fun s' ht => ?_
    cases ht
  | cons t input ihInput =>
    induction stack generalizing applied consumed with
    | nil =>
      refine .of_forall_not_transition fun s' ht => ?_
      cases ht
    | cons c stack ihStack =>
      exact settles hg hpolicy ihInput (fun d => hseen d t) c stack (fun _ _ => ihStack)
        applied consumed

/-- Nonterminals whose predicted rules all begin with one of them are expanded forever. -/
theorem isFinished_run_eq_false {t : Code} {input : List Code} {P : Code → Prop}
    (hstrict : t = Code.endOfInput → strict = true)
    (h : ∀ c, P c → g.alphabet.isTerminal c = false ∧ ∃ r, g.predicted? c t = some r ∧
      ∃ d rest, r.expansion = d :: rest ∧ P d) (n : Nat) {c : Code} (hc : P c)
    (stack : List Code) (applied : List Rule) (consumed : Nat) :
    (run g strict n ⟨c :: stack, t :: input, applied, consumed⟩).isFinished = false := by
  induction n generalizing c stack applied with
  | zero => rfl
  | succ n ih =>
    obtain ⟨hnonterminal, r, hr, d, rest, he, hd⟩ := h c hc
    rw [(Transition.expand c t stack input applied consumed r hnonterminal hstrict hr).run_succ,
      he]
    exact ih hd (rest ++ stack) (r :: applied)

end Machine

namespace CompiledGrammar

/-- A machine that comes to an end in front of every input does so within its move limit, and then
no parse is given up. -/
theorem CompiledBy.ends_of_halts {g : CompiledGrammar} {options : CompileOptions}
    (hg : g.CompiledBy options) {parsing : ParseOptions}
    (hhalts : ∀ input, Machine.Halts g parsing.strict (.initial g input)) (tokens : List Token) :
    (∀ input, ∃ n ≤ Machine.moveLimit g input,
        (∃ s, Machine.run g parsing.strict n (.initial g input) = .accepted s) ∨
        ∃ s expected, Machine.run g parsing.strict n (.initial g input) = .rejected s expected) ∧
    g.parse parsing tokens ≠ .error .unbounded := by
  constructor
  · intro input
    obtain ⟨n, hn⟩ := hhalts input
    have hlimit := Machine.isFinished_run_moveLimit hg hn
    refine ⟨Machine.moveLimit g input, Nat.le_refl _, ?_⟩
    cases ho : Machine.run g parsing.strict (Machine.moveLimit g input) (.initial g input) with
    | accepted s => exact Or.inl ⟨s, rfl⟩
    | rejected s expected => exact Or.inr ⟨s, expected, rfl⟩
    | unfinished s =>
      rw [ho] at hlimit
      cases hlimit
  · intro hu
    rcases g.exists_spells_or_unmapped parsing tokens with ⟨word, hw⟩ | ⟨t, -, hparse⟩
    · obtain ⟨n, hn⟩ := hhalts (word ++ [Code.endOfInput])
      rw [(parse_eq_unbounded_iff hg hw).mp hu n] at hn
      cases hn
    · rw [hparse] at hu
      cases hu

/-- If conflicts are refused, the machine accepts or rejects every input within its move limit, and
no parse is given up, also where the FOLLOW sets are computed by guarded visits: as long as these do
not miss a terminal that begins and follows a left-recursive nonterminal that can vanish. -/
theorem parse_terminates_guarded {text : String} {g : CompiledGrammar}
    (h : ofText text ⟨.reject, .guardedRecursion⟩ = .ok g)
    (hseen : ∀ c t, g.LeftRecursive c → Code.epsilon ∈ g.first.get c → t ∈ g.first.get c →
      ¬g.Misses c t) (parsing : ParseOptions) (tokens : List Token) :
    (∀ input, ∃ n ≤ Machine.moveLimit g input,
        (∃ s, Machine.run g parsing.strict n (.initial g input) = .accepted s) ∨
        ∃ s expected, Machine.run g parsing.strict n (.initial g input) = .rejected s expected) ∧
    g.parse parsing tokens ≠ .error .unbounded := by
  have hg := compiledBy_of_ofText h
  exact hg.ends_of_halts (fun input => Machine.halts_of_not_misses hg rfl hseen _ _ _ _) tokens

/-- `t` follows `W` by way of `Z`, `Y` and `X`, and only through the last rule. -/
def lateText (front : String) : String :=
  "S -> Y\nW -> " ++ front ++ " X | EPSILON\nX -> Y\nY -> Z\nZ -> W\nA -> X t"

/-- The grammar of that text with `u` in front of `X`; `W` has code 4, `u` code 5, `t` code 9. -/
def late : Grammar where
  alphabet := ⟨["EPSILON", "$", "S", "Y", "W", "u", "X", "Z", "A", "t"]⟩
  rules := [⟨0, 2, [3]⟩, ⟨1, 4, [5, 6]⟩, ⟨2, 4, [0]⟩, ⟨3, 6, [3]⟩, ⟨4, 3, [7]⟩, ⟨5, 7, [4]⟩,
    ⟨6, 8, [6, 9]⟩]
  start := 2

/-- What guarded visits find behind its nonterminals: `t` arrives late and misses `W`. -/
def lateFollow : SetFamily late.alphabet.size :=
  .ofFn fun c =>
    if c ∈ [2, 4] then .singleton Code.endOfInput
    else if c ∈ [3, 6, 7] then .singleton Code.endOfInput ∪ .singleton 9
    else ∅

/-- The visits miss `t` behind `W`, which it does not begin, so the parse of `u` ends. -/
theorem parse_terminates_guarded_late :
    ∃ g, ofText (lateText "u") ⟨.reject, .guardedRecursion⟩ = .ok g ∧ g.Misses 4 9 ∧
      (∀ c t, g.LeftRecursive c → Code.epsilon ∈ g.first.get c → t ∈ g.first.get c →
        ¬g.Misses c t) ∧
      (∃ n ≤ Machine.moveLimit g [5, Code.endOfInput],
        (∃ s, Machine.run g true n (.initial g [5, Code.endOfInput]) = .accepted s) ∨
        ∃ s expected, Machine.run g true n (.initial g [5, Code.endOfInput]) =
          .rejected s expected) ∧
      g.parse ⟨true, {}⟩ (letterTokens ["u"]) ≠ .error .unbounded := by
  have hgrammar : Grammar.ofText (lateText "u") = .ok late := by decide +kernel
  obtain ⟨table, hg⟩ := exists_ofText_guarded hgrammar 60 lateFollow
    (by decide +kernel) (by decide +kernel)
  have hmissed : 9 ∈ (late.follow .fixedPoint late.first).get 4 ∧ 9 ∉ lateFollow.get 4 := by
    decide +kernel
  have hfound : ∀ c < 10, Code.epsilon ∈ late.first.get c → ∀ t ∈ (late.first.get c).toList,
      t ∈ (late.follow .fixedPoint late.first).get c → t ∈ lateFollow.get c := by
    decide +kernel
  have hseen : ∀ c t, late.LeftRecursive c → Code.epsilon ∈ late.first.get c →
      t ∈ late.first.get c → ¬CompiledGrammar.Misses ⟨late, late.first, lateFollow, table⟩ c t := by
    rintro c t - he ht ⟨hin, hout⟩
    have hlt := SetFamily.lt_of_mem_get he
    rw [First.length_first] at hlt
    exact hout (hfound c hlt he t (CodeSet.mem_toList.mpr ht) hin)
  obtain ⟨hends, hparse⟩ := parse_terminates_guarded hg hseen ⟨true, {}⟩ (letterTokens ["u"])
  exact ⟨_, hg, hmissed, hseen, hends [5, Code.endOfInput], hparse⟩

/-- The grammar of that text with `A` in front of `X`, which makes all its nonterminals but `S`
left-recursive; `A` has code 5, `X` code 6, `Z` code 7, `t` code 8. -/
def lateRecursive : Grammar where
  alphabet := ⟨["EPSILON", "$", "S", "Y", "W", "A", "X", "Z", "t"]⟩
  rules := [⟨0, 2, [3]⟩, ⟨1, 4, [5, 6]⟩, ⟨2, 4, [0]⟩, ⟨3, 6, [3]⟩, ⟨4, 3, [7]⟩, ⟨5, 7, [4]⟩,
    ⟨6, 5, [6, 8]⟩]
  start := 2

/-- What guarded visits find behind its nonterminals: `t` misses `W` again. -/
def lateRecursiveFollow : SetFamily lateRecursive.alphabet.size :=
  .ofFn fun c =>
    if c ∈ [2, 4] then .singleton Code.endOfInput
    else if c ∈ [3, 5, 6, 7] then .singleton Code.endOfInput ∪ .singleton 8
    else ∅

/-- That grammar with these sets and a prediction table. -/
def lateCompiled (table : PredictionTable) : CompiledGrammar :=
  ⟨lateRecursive, lateRecursive.first, lateRecursiveFollow, table⟩

/-- Every nonterminal begins with `t`, by a rule that begins with a nonterminal. -/
theorem lateCompiled_expands {table : PredictionTable} {options : CompileOptions}
    (hg : (lateCompiled table).CompiledBy options) (hpolicy : options.conflictPolicy = .reject)
    {c : Code} (hc : c ∈ lateRecursive.alphabet.nonterminals) :
    lateRecursive.alphabet.isTerminal c = false ∧
      ∃ r, (lateCompiled table).predicted? c 8 = some r ∧
        ∃ d rest, r.expansion = d :: rest ∧ d ∈ lateRecursive.alphabet.nonterminals := by
  have hrules : ∀ c ∈ lateRecursive.alphabet.nonterminals, ∃ r ∈ lateRecursive.rules, r.lhs = c ∧
      8 ∈ First.ofSequence lateRecursive.first r.rhs ∧
      ∃ d ∈ lateRecursive.alphabet.nonterminals, r.expansion = d :: r.expansion.tail := by
    decide +kernel
  obtain ⟨r, hr, rfl, hfirst, d, hd, he⟩ := hrules c hc
  refine ⟨?_, r, ?_, d, r.expansion.tail, he, hd⟩
  · exact Alphabet.isTerminal_eq_false.mpr (hg.wellFormed.lhs_nonterminal r hr)
  · exact hg.predicted?_of_mem_predict hpolicy hr
      (Rule.mem_predict.mpr (Or.inl ⟨hfirst, by decide⟩))

/-- Guarded visits hide the conflict of `W` and `t`, so the grammar compiles. But `t` is in its
language, and the machine expands `W` in front of `t` forever: `W` to `A X`, `A` to `X t`, and `X`
by way of `Y` and `Z` to `W`. -/
theorem parse_unbounded_guarded :
    ∃ g, ofText (lateText "A") ⟨.reject, .guardedRecursion⟩ = .ok g ∧
      g.Derives [g.start] [8] ∧
      ∀ strict, g.Spells {} (Token.significant (letterTokens ["t"])) [8] ∧
        (∀ n, (Machine.run g strict n (.initial g [8, Code.endOfInput])).isFinished = false) ∧
        g.parse ⟨strict, {}⟩ (letterTokens ["t"]) = .error .unbounded := by
  have hgrammar : Grammar.ofText (lateText "A") = .ok lateRecursive := by decide +kernel
  obtain ⟨table, hg⟩ := exists_ofText_guarded hgrammar 60 lateRecursiveFollow
    (by decide +kernel) (by decide +kernel)
  have hc : (lateCompiled table).CompiledBy ⟨.reject, .guardedRecursion⟩ := compiledBy_of_ofText hg
  have hderives : lateRecursive.deriveLeftmost? [2] [0, 4, 5, 1, 6, 3, 4, 5, 2, 3, 4, 5, 2] =
      some [8] := by
    decide +kernel
  have hcode : (lateRecursive.alphabet.code? "t").filter (fun c =>
      c != Code.epsilon && c != Code.endOfInput && lateRecursive.alphabet.isTerminal c) =
        some 8 := by
    decide +kernel
  have hspells : (lateCompiled table).Spells {} (Token.significant (letterTokens ["t"])) [8] := by
    refine List.Forall₂.cons ?_ .nil
    simp [terminalOf, spelledTerminal?, lateCompiled, hcode]
  have hruns : ∀ strict n, (Machine.run (lateCompiled table) strict n
      (.initial (lateCompiled table) [8, Code.endOfInput])).isFinished = false := by
    intro strict n
    exact Machine.isFinished_run_eq_false (P := (· ∈ lateRecursive.alphabet.nonterminals))
      (fun he : 8 = Code.endOfInput => absurd he (by decide))
      (fun c hmem => lateCompiled_expands hc rfl hmem) n
      (show 2 ∈ lateRecursive.alphabet.nonterminals by decide) [Code.endOfInput] [] 0
  refine ⟨lateCompiled table, hg, Grammar.derives_of_deriveLeftmost? hderives, fun strict =>
    ⟨hspells, hruns strict, ?_⟩⟩
  have hunbounded := @parse_eq_unbounded_iff _ _ ⟨strict, {}⟩ _ _ hc hspells
  exact hunbounded.mpr (hruns strict)

end CompiledGrammar

end PredictiveFrontend

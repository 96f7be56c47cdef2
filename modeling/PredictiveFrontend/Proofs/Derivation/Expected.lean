import PredictiveFrontend.Proofs.Derivation.Fault
import PredictiveFrontend.Proofs.Grammar.LeftRecursion
import PredictiveFrontend.Proofs.Grammar.Table

/-!
# What a fault expects

The terminals that a fault expects are those that the table knows for the symbol on top of the
stack. They are not the terminals that could have been read in place of the rejected one. Rules that
were applied with the rejected terminal as lookahead have already decided against some of those, and
the FOLLOW set of a symbol that can vanish also holds what follows it elsewhere. The terminals that
could have been read are the ones that begin a form derived from a stack held since the last token
was read.
-/

namespace PredictiveFrontend

namespace Grammar

/-- A form derived from the symbols begins with the terminal. -/
def Begins (g : Grammar) (symbols : List Code) (t : Code) : Prop :=
  ∃ rest, g.Derives symbols (t :: rest)

/-- The terminal begins a form derived from the symbol, or the symbol can vanish and the terminal
follows it somewhere. -/
def Admits (g : Grammar) (c t : Code) : Prop :=
  g.Begins [c] t ∨ (g.Derives [c] [] ∧ g.Follows c t)

theorem Begins.append {g : Grammar} {symbols : List Code} {t : Code} (h : g.Begins symbols t)
    (below : List Code) : g.Begins (symbols ++ below) t := by
  obtain ⟨rest, hd⟩ := h
  exact ⟨rest ++ below, hd.append_right below⟩

/-- A terminal derives nothing but itself. -/
theorem eq_of_derives_terminal {g : Grammar} (wf : g.WellFormed) {c : Code} {form : List Code}
    (hc : g.alphabet.isTerminal c = true) (h : g.Derives [c] form) : form = [c] := by
  rcases h.singleton_cases with he | ⟨r, hr, rfl, -⟩
  · exact he
  · rw [Alphabet.isTerminal_eq_false.mpr (wf.lhs_nonterminal r hr)] at hc
    cases hc

/-- A terminal admits only itself. -/
theorem admits_terminal {g : Grammar} (wf : g.WellFormed) {c t : Code}
    (hc : g.alphabet.isTerminal c = true) : g.Admits c t ↔ t = c := by
  constructor
  · rintro (⟨rest, hd⟩ | ⟨hd, -⟩)
    · exact (List.cons.inj (eq_of_derives_terminal wf hc hd)).1
    · cases eq_of_derives_terminal wf hc hd
  · rintro rfl
    exact Or.inl ⟨[], .refl⟩

end Grammar

@[simp] theorem SyntaxFault.expected_after (tokens : List Token) (consumed : Nat)
    (expected : List String) :
    (SyntaxFault.after tokens consumed expected).expected = expected := by
  unfold SyntaxFault.after
  split
  · rfl
  · split
    · rfl
    · rfl

namespace CompiledGrammar

variable {g : CompiledGrammar} {strict : Bool} {word : List Code}

/-- A terminal that may stand for a token: none of the two markers. -/
structure IsReadable (g : CompiledGrammar) (t : Code) : Prop where
  lt_size : t < g.alphabet.size
  isTerminal : g.alphabet.isTerminal t = true
  ne_epsilon : t ≠ Code.epsilon
  ne_endOfInput : t ≠ Code.endOfInput

/-! ### The listed terminals -/

/-- Names tell the symbols apart. -/
theorem name_inj (wf : g.toGrammar.WellFormed) {c d : Code} (hc : c < g.alphabet.size)
    (hd : d < g.alphabet.size) : g.name c = g.name d ↔ c = d := by
  refine ⟨fun h => ?_, fun h => h ▸ rfl⟩
  rw [← Alphabet.code_name wf.nodup hc, ← Alphabet.code_name wf.nodup hd]
  exact congrArg g.alphabet.code h

section Listed

variable (hg : g.CompiledBy ⟨.reject, .fixedPoint⟩)
include hg

theorem mem_follow_iff {c t : Code} (hc : g.alphabet.isNonterminal c = true)
    (ht : g.alphabet.isTerminal t = true) : t ∈ g.follow.get c ↔ g.Follows c t := by
  rw [hg.follow_eq, hg.first_eq]
  exact Grammar.mem_follow_fixedPoint_iff hg.wellFormed hc ht

/-- A nonterminal admits the terminals that predict one of its rules. -/
theorem admits_iff_exists_predict {c t : Code} (hc : g.alphabet.isNonterminal c = true)
    (ht : g.IsReadable t) :
    g.Admits c t ↔ ∃ r ∈ g.rules, r.lhs = c ∧ t ∈ r.predict g.first g.follow := by
  have wf := hg.wellFormed
  have hfollow := mem_follow_iff hg hc ht.isTerminal
  have hbegins : ∀ r ∈ g.rules, t ∈ First.ofSequence g.first r.rhs ↔ g.Begins r.expansion t :=
    fun r hr => by
      rw [hg.first_eq]
      exact Grammar.mem_first_iff wf (wf.rhs_lt r hr) ht.isTerminal ht.ne_epsilon
  have hvanishes : ∀ r : Rule, Code.epsilon ∈ First.ofSequence g.first r.rhs ↔
      g.Derives r.expansion [] := fun r => by
    rw [hg.first_eq]
    exact Grammar.epsilon_mem_first_iff wf
  constructor
  · rintro (⟨rest, hd⟩ | ⟨hd, hfollows⟩)
    · rcases hd.singleton_cases with he | ⟨r, hr, hl, hform⟩
      · rw [← (List.cons.inj he).1, ← Alphabet.isTerminal_eq_false, ht.isTerminal] at hc
        cases hc
      · exact ⟨r, hr, hl, Rule.mem_predict.mpr
          (Or.inl ⟨(hbegins r hr).mpr ⟨rest, hform⟩, ht.ne_epsilon⟩)⟩
    · rcases hd.singleton_cases with he | ⟨r, hr, rfl, hform⟩
      · cases he
      · exact ⟨r, hr, rfl, Rule.mem_predict.mpr
          (Or.inr ⟨(hvanishes r).mpr hform, hfollow.mpr hfollows⟩)⟩
  · rintro ⟨r, hr, rfl, hp⟩
    have hlhs := Grammar.derives_of_mem_rules hr
    rcases Rule.mem_predict.mp hp with ⟨hfirst, -⟩ | ⟨he, hfollows⟩
    · obtain ⟨rest, hd⟩ := (hbegins r hr).mp hfirst
      exact Or.inl ⟨rest, hlhs.trans hd⟩
    · exact Or.inr ⟨hlhs.trans ((hvanishes r).mp he), hfollow.mp hfollows⟩

/-- The table has an entry for each terminal that predicts a rule, and for no other. -/
theorem mem_lookaheads_iff {c t : Code} :
    t ∈ g.table.lookaheads c ↔ ∃ r ∈ g.rules, r.lhs = c ∧ t ∈ r.predict g.first g.follow := by
  rw [PredictionTable.lookaheads, List.mem_map]
  constructor
  · rintro ⟨e, he, rfl⟩
    obtain ⟨hmem, hkey⟩ := List.mem_filter.mp he
    have hget := hg.mem_entries_table.mp hmem
    have hclaim := Grammar.mem_claims_of_predictionTable hg.table_eq hget
    obtain ⟨r, hr, hclaim⟩ := List.mem_flatMap.mp hclaim
    obtain ⟨hl, -, hp⟩ := Rule.mem_claims.mp hclaim
    exact ⟨r, hr, hl.symm.trans (by simpa using hkey), hp⟩
  · rintro ⟨r, hr, rfl, hp⟩
    have hclaim : ⟨r.lhs, t, r.number⟩ ∈ g.toGrammar.claims g.first g.follow :=
      List.mem_flatMap.mpr ⟨r, hr, Rule.mem_claims.mpr ⟨rfl, rfl, hp⟩⟩
    have hget := Grammar.get?_of_mem_claims hg.table_eq hclaim
    exact ⟨⟨r.lhs, t, r.number⟩, List.mem_filter.mpr ⟨hg.mem_entries_table.mpr hget, by simp⟩, rfl⟩

/-- The names listed for a nonterminal are those of the terminals that it admits. -/
theorem name_mem_expectedNames_iff {c t : Code} (hc : g.alphabet.isNonterminal c = true)
    (ht : g.IsReadable t) : g.name t ∈ g.expectedNames c ↔ g.Admits c t := by
  rw [admits_iff_exists_predict hg hc ht, ← mem_lookaheads_iff hg, expectedNames,
    List.mem_mergeSort, List.mem_map]
  constructor
  · rintro ⟨t', ht', hname⟩
    obtain ⟨r, -, -, hp⟩ := (mem_lookaheads_iff hg).mp ht'
    obtain rfl := (name_inj hg.wellFormed (CodeSet.lt_of_mem hp) ht.lt_size).mp hname
    exact ht'
  · exact fun h => ⟨t, h, rfl⟩

end Listed

end CompiledGrammar

namespace Machine

variable {g : CompiledGrammar} {strict : Bool} {word : List Code}

/-- The input is rejected below a terminal other than the next one, or below a nonterminal that has
no rule for the next one. -/
theorem exists_of_move_eq_reject {s : State} {expected : List String}
    (h : move g strict s = .reject expected) :
    ∃ top below, s.stack = top :: below ∧
      ((g.alphabet.isTerminal top = true ∧ expected = [g.name top]) ∨
        (g.alphabet.isNonterminal top = true ∧ expected = g.expectedNames top)) := by
  unfold move at h
  split at h
  · next top below t input hs _ =>
    refine ⟨top, below, hs, ?_⟩
    split at h
    · next htop =>
      split at h
      · cases h
      · cases h
        exact Or.inl ⟨htop, rfl⟩
    · next htop =>
      split at h
      · cases h
      · split at h
        · cases h
        · cases h
          refine Or.inr ⟨Alphabet.isTerminal_eq_false.mp (by simpa using htop), rfl⟩
  · cases h

/-- The stack holds symbols of the alphabet, and no marker of the empty word. -/
theorem Underway.of_mem_stack (wf : g.toGrammar.WellFormed) {read unread symbols : List Code}
    {s : State} (hu : Underway g word read unread symbols s) {c : Code} (hc : c ∈ s.stack) :
    c < g.alphabet.size ∧ c ≠ Code.epsilon := by
  have hstart := wf.isNonterminal_start
  have hderives : g.Derives [g.start] (read ++ symbols) :=
    Grammar.derives_of_deriveLeftmost? hu.derived
  rw [hu.stack_eq, List.mem_append, List.mem_singleton] at hc
  rcases hc with hc | rfl
  · have hmem : c ∈ read ++ symbols := List.mem_append_right _ hc
    have hlt : ∀ d ∈ [g.start], d < g.alphabet.size := by
      simpa using Alphabet.lt_size_of_isNonterminal hstart
    have hne := wf.ne_epsilon_of_isNonterminal hstart
    refine ⟨hderives.lt_size wf hlt c hmem, ?_⟩
    rintro rfl
    exact hderives.epsilon_not_mem (by simpa using hne.symm) hmem
  · exact ⟨wf.endOfInput_lt, by decide⟩

/-- The state in which a run has stopped. -/
def Outcome.state : Outcome → State
  | .accepted s => s
  | .rejected s _ => s
  | .unfinished s => s

theorem reaches_of_state_run {n : Nat} {s s' : State} (h : (run g strict n s).state = s') :
    Reaches g strict s s' := by
  subst h
  have hreaches := reaches_of_run g strict n s
  cases hrun : run g strict n s with
  | accepted s' =>
    rw [hrun] at hreaches
    exact hreaches.1
  | rejected s' expected =>
    rw [hrun] at hreaches
    exact hreaches.1
  | unfinished s' =>
    rw [hrun] at hreaches
    exact hreaches

/-- Where a run has come to its end the machine does not go on. -/
theorem move_ne_next_of_isFinished {n : Nat} {s s' : State} (h : (run g strict n s).state = s')
    (hfinished : (run g strict n s).isFinished = true) (s'' : State) :
    move g strict s' ≠ .next s'' := by
  subst h
  have hreaches := reaches_of_run g strict n s
  cases hrun : run g strict n s with
  | accepted s' =>
    rw [hrun] at hreaches
    simp [Outcome.state, hreaches.2]
  | rejected s' expected =>
    rw [hrun] at hreaches
    simp [Outcome.state, hreaches.2]
  | unfinished s' =>
    rw [hrun] at hfinished
    cases hfinished

/-- The number of tokens read never falls. -/
theorem Reaches.consumed_le {s s' : State} (h : Reaches g strict s s') :
    s.consumed ≤ s'.consumed := by
  induction h with
  | refl => exact Nat.le_refl _
  | tail _ ht ih =>
    refine Nat.le_trans ih ?_
    cases ht with
    | read c stack input applied consumed hc =>
      simp only
      split
      · exact Nat.le_refl _
      · exact Nat.le_succ _
    | expand => exact Nat.le_refl _

section Followed

variable (hg : g.CompiledBy ⟨.reject, .fixedPoint⟩)
include hg

/-- A transition keeps what may stand behind the symbols of the stack. -/
theorem Transition.followed {s s' : State} (ht : Transition g strict s s')
    (h : g.Followed s.stack) : g.Followed s'.stack := by
  cases ht with
  | read c stack input applied consumed hc => exact h.of_cons
  | expand c t stack input applied consumed r hc ht hr =>
    obtain ⟨hmem, rfl, -⟩ := hg.of_predicted? hr
    exact h.expand hg rfl hmem

/-- On every stack each symbol is followed by what may follow it. -/
theorem Reaches.followed {input : List Code} {s : State}
    (h : Reaches g strict (.initial g input) s) : g.Followed s.stack := by
  induction h with
  | refl =>
    exact .pair hg.closed_first hg.wellFormed.isTerminal_endOfInput (by decide)
      (hg.closed_follow rfl).start
  | tail _ ht ih => exact ht.followed hg ih

/-- What a stack can begin with is admitted by the symbol on top of it. -/
theorem admits_of_begins {top t : Code} {below : List Code} (h : g.Followed (top :: below))
    (htop : top ≠ Code.epsilon) (ht : g.IsReadable t) (hbegins : g.Begins (top :: below) t) :
    g.Admits top t := by
  have wf := hg.wellFormed
  have hform : Grammar.sententialForm [top] = [top] :=
    Grammar.sententialForm_eq_self (by simpa using htop.symm)
  obtain ⟨rest, hd⟩ := hbegins
  have hfirst : t ∈ First.ofSequence g.first ([top] ++ below) :=
    hg.closed_first.mem_of_derives wf hd
      ((hg.closed_first.mem_ofSequence_terminal ht.lt_size ht.isTerminal ht.ne_epsilon).mpr rfl)
  rcases First.mem_ofSequence_append.mp hfirst with ⟨hm, -⟩ | ⟨he, hm⟩
  · have hstarts := hg.sound_first.exists_derives_cons hm ht.ne_epsilon
    rw [hform] at hstarts
    exact Or.inl hstarts
  · have hvanish := hg.sound_first.derives_nil he
    rw [hform] at hvanish
    have hc : g.alphabet.isNonterminal top = true := by
      refine Alphabet.isTerminal_eq_false.mp (Bool.eq_false_iff.mpr fun hc => ?_)
      cases Grammar.eq_of_derives_terminal wf hc hvanish
    have hmem := h [] top below rfl hc t hm ht.ne_epsilon
    exact Or.inr ⟨hvanish, (CompiledGrammar.mem_follow_iff hg hc ht.isTerminal).mp hmem⟩

end Followed

end Machine

/-! ### The terminals that could have been read -/

namespace CompiledGrammar

variable {g : CompiledGrammar} {strict : Bool} {word : List Code}

/-- The machine reads these terminals, and then it reads this one. -/
def ReadsNext (g : CompiledGrammar) (strict : Bool) (read : List Code) (t : Code) : Prop :=
  ∃ s, Machine.Reaches g strict (.initial g (read ++ [t, Code.endOfInput])) s ∧
    s.consumed = read.length + 1

/-- On the way through the word the machine holds this stack when this much is left. -/
def Holds (g : CompiledGrammar) (strict : Bool) (word rest stack : List Code) : Prop :=
  ∃ s, Machine.Reaches g strict (.initial g (word ++ [Code.endOfInput])) s ∧
    s.input = rest ++ [Code.endOfInput] ∧ s.stack = stack

section ReadsNext

variable (hg : g.CompiledBy ⟨.reject, .fixedPoint⟩)
include hg

/-- A word is read to its end if and only if it begins a derived form. -/
theorem exists_reaches_consumed_iff (hlt : ∀ c ∈ word, c < g.alphabet.size)
    (hterminal : ∀ c ∈ word, g.alphabet.isTerminal c = true) (hend : Code.endOfInput ∉ word) :
    (∃ s, Machine.Reaches g strict (.initial g (word ++ [Code.endOfInput])) s ∧
      s.consumed = word.length) ↔ g.toGrammar.Viable word := by
  have wf := hg.wellFormed
  have hinvariant : ∀ s, Machine.Reaches g strict (.initial g (word ++ [Code.endOfInput])) s →
      Machine.Invariant g word s := fun s =>
    (Machine.invariant_initial wf word).reaches hg hend hterminal
  constructor
  · rintro ⟨s, hreach, hconsumed⟩
    rcases hinvariant s hreach with ⟨read, unread, symbols, hu⟩ | he
    · have hlength : word.length = read.length + unread.length := by
        rw [hu.word_eq, List.length_append]
      have hnil : unread = [] := List.eq_nil_of_length_eq_zero (by
        rw [hu.consumed] at hconsumed
        omega)
      have hword := hu.word_eq
      rw [hnil, List.append_nil] at hword
      rw [hword]
      exact hu.viable
    · refine ⟨s.applied.reverse.map Rule.number, [], ?_⟩
      rw [List.append_nil]
      exact he.derived
  · rintro ⟨numbers, form, hd⟩
    have hstart := wf.ne_epsilon_of_isNonterminal wf.isNonterminal_start
    have hne := (Grammar.derives_of_deriveLeftmost? hd).epsilon_not_mem
      (by simpa using hstart.symm)
    obtain ⟨-, -, symbols, applied, consumed, -, -, hreach, -⟩ :=
      Machine.exists_reachesBy_word hg rfl rfl hlt hterminal
        (fun hm => hne (List.mem_append_left _ hm)) hend (directed_start hg hd)
        [Code.endOfInput] [] 0
    refine ⟨_, hreach, ?_⟩
    rcases hinvariant _ hreach with ⟨read, unread, symbols', hu⟩ | he
    · have hnil : unread = [] := List.append_left_eq_self.mp hu.input_eq.symm
      rw [hu.consumed, hu.word_eq, hnil, List.append_nil]
    · cases he.input_eq

/-- A terminal is read next if and only if it extends what is read to the beginning of a derived
form. -/
theorem readsNext_iff_viable {read : List Code} (hlt : ∀ c ∈ read, c < g.alphabet.size)
    (hterminal : ∀ c ∈ read, g.alphabet.isTerminal c = true) (hend : Code.endOfInput ∉ read)
    {t : Code} (ht : g.IsReadable t) :
    g.ReadsNext strict read t ↔ g.toGrammar.Viable (read ++ [t]) := by
  have hlt' : ∀ c ∈ read ++ [t], c < g.alphabet.size := by
    simpa [or_imp, forall_and] using ⟨hlt, ht.lt_size⟩
  have hterminal' : ∀ c ∈ read ++ [t], g.alphabet.isTerminal c = true := by
    simpa [or_imp, forall_and] using ⟨hterminal, ht.isTerminal⟩
  have hend' : Code.endOfInput ∉ read ++ [t] := by
    simpa using ⟨hend, ht.ne_endOfInput.symm⟩
  rw [← exists_reaches_consumed_iff hg hlt' hterminal' hend', ReadsNext, List.append_assoc,
    List.length_append]
  rfl

/-- What begins a form derived from a stack extends what was read. -/
theorem viable_of_begins (hterminal : ∀ c ∈ word, g.alphabet.isTerminal c = true)
    {read unread symbols : List Code} {s : Machine.State}
    (hu : Machine.Underway g word read unread symbols s) {t : Code} (ht : g.IsReadable t)
    (h : g.Begins s.stack t) : g.toGrammar.Viable (read ++ [t]) := by
  have wf := hg.wellFormed
  have hne : Code.epsilon ∉ symbols := fun hm => by
    have hstack : Code.epsilon ∈ s.stack := hu.stack_eq ▸ List.mem_append_left _ hm
    exact (hu.of_mem_stack wf hstack).2 rfl
  obtain ⟨rest, hd⟩ := h
  rw [hu.stack_eq] at hd
  have hfirst : t ∈ First.ofSequence g.first (symbols ++ [Code.endOfInput]) :=
    hg.closed_first.mem_of_derives wf hd
      ((hg.closed_first.mem_ofSequence_terminal ht.lt_size ht.isTerminal ht.ne_epsilon).mpr rfl)
  rcases First.mem_ofSequence_append.mp hfirst with ⟨hm, -⟩ | ⟨-, hm⟩
  · have hstarts := hg.sound_first.starts_ofSequence hm
    rw [Grammar.sententialForm_eq_self hne] at hstarts
    obtain ⟨numbers, form, hleft⟩ := (Grammar.starts_of_ne ht.ne_epsilon).mp hstarts
    refine ⟨s.applied.reverse.map Rule.number ++ numbers, form, ?_⟩
    refine Grammar.deriveLeftmost?_append.mpr ⟨_, hu.derived, ?_⟩
    refine (Grammar.deriveLeftmost?_append_terminals fun c hc => hterminal c ?_).mpr
      ⟨_, hleft, by simp⟩
    rw [hu.word_eq]
    exact List.mem_append_left _ hc
  · have he := (hg.closed_first.mem_ofSequence_terminal wf.endOfInput_lt wf.isTerminal_endOfInput
      (by decide)).mp hm
    exact absurd he ht.ne_endOfInput

/-- The terminals that extend what is read are those that begin a form derived from a stack held
before the rest is read. -/
theorem viable_iff_exists_begins {generic : GenericTerminals} {tokens : List Token}
    {read rest : List Code} (hw : g.Spells generic (Token.significant tokens) (read ++ rest))
    (hend : Code.endOfInput ∉ read ++ rest) {t : Code} (ht : g.IsReadable t) :
    g.toGrammar.Viable (read ++ [t]) ↔
      ∃ stack, g.Holds strict (read ++ rest) rest stack ∧ g.Begins stack t := by
  constructor
  · rintro ⟨numbers, form, hd⟩
    rw [List.append_assoc] at hd
    obtain ⟨-, left, symbols, applied, consumed, -, hdirected, hreach, -⟩ :=
      exists_reachesBy_of_append hg hw (fun hm => hend (List.mem_append_left _ hm)) hd strict
    rw [← List.append_assoc] at hreach
    have hbegins : g.Begins symbols t :=
      ⟨form, Grammar.derives_of_deriveLeftmost? hdirected.derives⟩
    exact ⟨_, ⟨_, hreach, rfl, rfl⟩, hbegins.append _⟩
  · rintro ⟨_, ⟨s, hreach, hinput, rfl⟩, hbegins⟩
    have hinvariant := (Machine.invariant_initial hg.wellFormed (read ++ rest)).reaches hg hend
      hw.isTerminal hreach
    rcases hinvariant with ⟨read', unread, symbols, hu⟩ | he
    · obtain rfl : rest = unread := List.append_cancel_right (hinput.symm.trans hu.input_eq)
      obtain rfl : read = read' := List.append_cancel_right hu.word_eq
      exact viable_of_begins hg hw.isTerminal hu ht hbegins
    · rw [he.input_eq] at hinput
      simp at hinput

end ReadsNext

section Run

variable {read : List Code} {t : Code}

/-- A run that gets past a terminal reads it. -/
theorem readsNext_of_run {n : Nat} {s : Machine.State}
    (hrun : (Machine.run g strict n (.initial g (read ++ [t, Code.endOfInput]))).state = s)
    (hconsumed : s.consumed = read.length + 1) : g.ReadsNext strict read t :=
  ⟨s, Machine.reaches_of_state_run hrun, hconsumed⟩

/-- A run that ends in front of a terminal does not read it. -/
theorem not_readsNext_of_run {n : Nat} {s : Machine.State}
    (hrun : (Machine.run g strict n (.initial g (read ++ [t, Code.endOfInput]))).state = s)
    (hfinished :
      (Machine.run g strict n (.initial g (read ++ [t, Code.endOfInput]))).isFinished = true)
    (hconsumed : s.consumed ≤ read.length) : ¬g.ReadsNext strict read t := by
  rintro ⟨s', hreach, hnext⟩
  have hstuck := Machine.move_ne_next_of_isFinished hrun hfinished
  have hle := (hreach.to_stuck (Machine.reaches_of_state_run hrun) hstuck).consumed_le
  omega

/-- The fault below a nonterminal lists what the table knows for it. -/
theorem expected_eq_of_run {parsing : ParseOptions} {tokens : List Token} {fault : SyntaxFault}
    (hfault : g.parse parsing tokens = .error (.unexpected fault))
    (hw : g.Spells parsing.generic (Token.significant tokens) word) {n : Nat}
    (hfinished :
      (Machine.run g parsing.strict n (.initial g (word ++ [Code.endOfInput]))).isFinished = true)
    {s : Machine.State} {top : Code} {below : List Code}
    (hrun : (Machine.run g parsing.strict n (.initial g (word ++ [Code.endOfInput]))).state = s)
    (hstack : s.stack = top :: below) (hc : g.alphabet.isNonterminal top = true) :
    fault.expected = g.expectedNames top := by
  obtain ⟨word', m, s', expected, hw', hrun', rfl⟩ := exists_run_of_parse_eq_unexpected hfault
  obtain rfl := hw.unique hw'
  have hsame := Machine.run_eq_of_isFinished hfinished (by rw [hrun']; rfl)
  rw [hsame, hrun'] at hrun
  obtain rfl : s' = s := hrun
  obtain ⟨top', below', hstack', hkind⟩ :=
    Machine.exists_of_move_eq_reject (Machine.reaches_of_run_eq_rejected hrun').2
  obtain ⟨rfl, -⟩ := List.cons.inj (hstack.symm.trans hstack')
  rw [SyntaxFault.expected_after]
  rcases hkind with ⟨hterminal, -⟩ | ⟨-, he⟩
  · rw [Alphabet.isTerminal_eq_false.mpr hc] at hterminal
    cases hterminal
  · exact he

end Run

/-- For every grammar text that compiles without conflicts and with complete FOLLOW sets, a fault
lists the terminals that the symbol on top of the last stack admits. The terminals that could have
been read instead of the rejected one are those that begin a form derived from some stack held since
the last token. So the fault lists all that the last of these stacks can begin with. If the symbol
on top of it cannot vanish, everything listed could have been read; if it is the only stack held
since the last token, everything that could have been read is listed. -/
theorem expected_exact {text : String} {parsing : ParseOptions} {tokens : List Token}
    {fault : SyntaxFault} (h : ofText text ⟨.reject, .fixedPoint⟩ = .ok g)
    (hgeneric : SymbolName.endOfInput ∉ parsing.generic.names)
    (hfault : g.parse parsing tokens = .error (.unexpected fault)) :
    ∃ read rest top below s,
      g.Spells parsing.generic (Token.significant tokens) (read ++ rest) ∧
      fault.PointsTo (Token.significant tokens) read.length ∧
      Machine.Reaches g parsing.strict (.initial g (read ++ rest ++ [Code.endOfInput])) s ∧
      s.stack = top :: below ∧ s.input = rest ++ [Code.endOfInput] ∧
      Machine.move g parsing.strict s = .reject fault.expected ∧
      ∀ t, g.IsReadable t →
        (g.name t ∈ fault.expected ↔ g.Admits top t) ∧
        (g.ReadsNext parsing.strict read t ↔
          ∃ stack, g.Holds parsing.strict (read ++ rest) rest stack ∧ g.Begins stack t) ∧
        (g.Begins (top :: below) t → g.name t ∈ fault.expected) ∧
        (¬g.Derives [top] [] → g.name t ∈ fault.expected → g.ReadsNext parsing.strict read t) ∧
        ((∀ stack, g.Holds parsing.strict (read ++ rest) rest stack → stack = top :: below) →
          g.ReadsNext parsing.strict read t → g.name t ∈ fault.expected) := by
  have hg := compiledBy_of_ofText h
  have wf := hg.wellFormed
  obtain ⟨word, n, s, expected, hw, hrun, rfl⟩ := exists_run_of_parse_eq_unexpected hfault
  have hend := hw.endOfInput_not_mem wf hgeneric
  obtain ⟨hreach, hreject⟩ := Machine.reaches_of_run_eq_rejected hrun
  have hinvariant := (Machine.invariant_initial wf word).reaches hg hend hw.isTerminal hreach
  obtain ⟨read, rest, symbols, hu⟩ := hinvariant.of_reject hreject
  obtain ⟨top, below, hstack, hkind⟩ := Machine.exists_of_move_eq_reject hreject
  obtain rfl := hu.word_eq
  have hfollowed : g.Followed (top :: below) := hstack ▸ Machine.Reaches.followed hg hreach
  obtain ⟨hlt, htop⟩ := hu.of_mem_stack wf (hstack ▸ List.mem_cons_self ..)
  simp only [SyntaxFault.expected_after]
  refine ⟨read, rest, top, below, s, hw, ?_, hreach, hstack, hu.input_eq, hreject, fun t ht => ?_⟩
  · rw [hu.consumed]
    exact SyntaxFault.pointsTo_after _ _ _
  have hlisted : g.name t ∈ expected ↔ g.Admits top t := by
    rcases hkind with ⟨hterminal, rfl⟩ | ⟨hc, rfl⟩
    · rw [List.mem_singleton, name_inj wf ht.lt_size hlt, Grammar.admits_terminal wf hterminal]
    · exact name_mem_expectedNames_iff hg hc ht
  have hreads : g.ReadsNext parsing.strict read t ↔
      ∃ stack, g.Holds parsing.strict (read ++ rest) rest stack ∧ g.Begins stack t := by
    rw [readsNext_iff_viable hg (fun c hc => hw.lt_size c (List.mem_append_left _ hc))
      (fun c hc => hw.isTerminal c (List.mem_append_left _ hc))
      (fun hm => hend (List.mem_append_left _ hm)) ht]
    exact viable_iff_exists_begins hg hw hend ht
  have hbegins : g.Begins (top :: below) t → g.Admits top t :=
    Machine.admits_of_begins hg hfollowed htop ht
  refine ⟨hlisted, hreads, fun hb => hlisted.mpr (hbegins hb), fun hvanish hl => ?_, ?_⟩
  · rcases hlisted.mp hl with hb | ⟨hd, -⟩
    · exact hreads.mpr ⟨top :: below, ⟨s, hreach, hu.input_eq, hstack⟩, hb.append below⟩
    · exact absurd hd hvanish
  · intro honly hread
    obtain ⟨stack, hholds, hb⟩ := hreads.mp hread
    rw [honly stack hholds] at hb
    exact hlisted.mpr (hbegins hb)

/-- A symbol that can vanish, with different terminals behind it. -/
def contextText : String :=
  "S -> a A c | b A d\nA -> EPSILON | e"

/-- Where `ad` fails, the symbol on top is the terminal `c`, and it admits nothing else. -/
theorem expected_exact_context :
    ∃ g fault top, ofText contextText ⟨.reject, .fixedPoint⟩ = .ok g ∧
      g.parse {} (letterTokens ["a", "d"]) = .error (.unexpected fault) ∧
      fault.expected = ["c"] ∧ ∀ t, g.IsReadable t → (g.name t ∈ ["c"] ↔ g.Admits top t) := by
  have hrun : (ofText contextText ⟨.reject, .fixedPoint⟩).map (fun g =>
      g.parse {} (letterTokens ["a", "d"])) =
      .ok (.error (.unexpected ⟨some "d", 1, 2, ["c"]⟩)) := by
    decide +kernel
  obtain ⟨g, hg, hfault⟩ := map_eq_ok.mp hrun
  obtain ⟨read, rest, top, below, s, -, -, -, -, -, -, hexpected⟩ :=
    expected_exact hg (by decide) hfault
  exact ⟨g, _, top, hg, hfault, rfl, fun t ht => (hexpected t ht).1⟩

/-- Behind `a` the fault of `ad` lists only `c`, and the fault of `aa` lists `d` among others. In
both places `e` could have been read, and `d` could not. -/
theorem expected_differs_in_context :
    ∃ g missing excessive, ofText contextText ⟨.reject, .fixedPoint⟩ = .ok g ∧
      (g.name 3, g.name 7, g.name 8) = ("a", "d", "e") ∧
      g.parse {} (letterTokens ["a", "d"]) = .error (.unexpected missing) ∧
      missing.column = 2 ∧ "e" ∉ missing.expected ∧
      g.parse {} (letterTokens ["a", "a"]) = .error (.unexpected excessive) ∧
      excessive.column = 2 ∧ "d" ∈ excessive.expected ∧
      g.ReadsNext false [3] 8 ∧ ¬g.ReadsNext false [3] 7 := by
  have hfaults : (ofText contextText ⟨.reject, .fixedPoint⟩).map (fun g =>
      (g.parse {} (letterTokens ["a", "d"]),
        match g.parse {} (letterTokens ["a", "a"]) with
        | .error (.unexpected fault) => fault.column
        | _ => 0)) = .ok (.error (.unexpected ⟨some "d", 1, 2, ["c"]⟩), 2) := by
    decide +kernel
  have hreads : (ofText contextText ⟨.reject, .fixedPoint⟩).map (fun g =>
      ((g.name 3, g.name 7, g.name 8),
        (Machine.run g false 4 (.initial g [3, 8, Code.endOfInput])).state,
        (Machine.run g false 4 (.initial g [3, 7, Code.endOfInput])).state,
        (Machine.run g false 4 (.initial g [3, 7, Code.endOfInput])).isFinished)) =
      .ok (("a", "d", "e"), ⟨[5, 1], [1], [⟨3, 4, [8]⟩, ⟨0, 2, [3, 4, 5]⟩], 2⟩,
        ⟨[5, 1], [7, 1], [⟨2, 4, [0]⟩, ⟨0, 2, [3, 4, 5]⟩], 1⟩, true) := by
    decide +kernel
  have hstops : (ofText contextText ⟨.reject, .fixedPoint⟩).map (fun g =>
      (g.inputOf {} (letterTokens ["a", "a"]),
        (Machine.run g false 4 (.initial g [3, 3, Code.endOfInput])).isFinished,
        (Machine.run g false 4 (.initial g [3, 3, Code.endOfInput])).state,
        g.alphabet.isNonterminal 4, (g.table.lookaheads 4).map g.name)) =
      .ok (.ok [3, 3, Code.endOfInput], true, ⟨[4, 5, 1], [3, 1], [⟨0, 2, [3, 4, 5]⟩], 1⟩, true,
        ["c", "d", "e"]) := by
    decide +kernel
  obtain ⟨g, hg, hpair⟩ := map_eq_ok.mp hfaults
  rw [hg] at hreads hstops
  simp only [Except.map, Except.ok.injEq, Prod.mk.injEq] at hreads hstops hpair
  obtain ⟨hnames, hread, hunread, hfinished⟩ := hreads
  obtain ⟨hinput, hstopped, hstack, hc, hlookaheads⟩ := hstops
  obtain ⟨hmissing, hcolumn⟩ := hpair
  split at hcolumn
  · next excessive hexcessive =>
    obtain ⟨word, hw, hword⟩ := inputOf_eq_ok.mp hinput
    obtain rfl : [3, 3] = word := List.append_cancel_right hword
    have hexpected := expected_eq_of_run hexcessive hw hstopped hstack rfl hc
    refine ⟨g, _, excessive, hg, by simpa using hnames, hmissing, rfl, by decide, hexcessive,
      hcolumn, ?_, readsNext_of_run hread rfl, not_readsNext_of_run hunread hfinished (by decide)⟩
    rw [hexpected, expectedNames, List.mem_mergeSort, hlookaheads]
    decide
  · cases hcolumn

end CompiledGrammar

end PredictiveFrontend

import PredictiveFrontend.Proofs.Derivation.Expected
import PredictiveFrontend.Proofs.Derivation.Restriction
import PredictiveFrontend.Proofs.Derivation.Termination
import PredictiveFrontend.Proofs.Grammar.Recoding
import Mathlib.Data.List.Sort

/-!
# Parsing after a change of order

Two grammar texts with the same lines in another order give the symbols other codes and the rules
other numbers. Under these codes the tables predict the same alternatives, and the machines run side
by side: they hold the same symbols, apply the same alternatives and stop at the same token. What is
said in names is the same for both texts.
-/

namespace PredictiveFrontend

/-! ### What is said in names -/

/-- The applied rule as a production line, without its number. -/
def DerivationStep.production (s : DerivationStep) : String :=
  Branch.line (s.lhs, s.rhs)

/-- What a derivation says but for the numbers of its rules: the production lines that are applied,
and how many tokens are matched. -/
def Derivation.unnumbered (d : Derivation) : List String × Nat :=
  (d.steps.map DerivationStep.production, d.tokensConsumed)

/-- A rule is written as the alternative that it is. -/
theorem Rule.production_eq (g : Grammar) (r : Rule) :
    r.production g.alphabet = Branch.line (g.branch r) :=
  rfl

namespace CompiledGrammar

/-- The members of the set that a family has for a named symbol, by name. -/
def namesIn (g : CompiledGrammar) (f : SetFamily g.alphabet.size) (name : String) : List String :=
  ((g.alphabet.code? name).map fun c => (f.get c).toList.map g.name).getD []

/-- The production line of the rule predicted for a named nonterminal and a named lookahead. -/
def predictedProduction? (g : CompiledGrammar) (nonterminal lookahead : String) : Option String :=
  (g.alphabet.code? nonterminal).bind fun c => (g.alphabet.code? lookahead).bind fun t =>
    (g.predicted? c t).map fun r => r.production g.alphabet

/-- Two compiled grammars that are the same in names, whatever the codes and the numbers are. -/
structure SameInNames (g g' : CompiledGrammar) : Prop where
  /-- The names are the same. -/
  names : ∀ name, name ∈ g.alphabet.names ↔ name ∈ g'.alphabet.names
  /-- The symbols have the same FIRST sets. -/
  first : ∀ name t, t ∈ g.namesIn g.first name ↔ t ∈ g'.namesIn g'.first name
  /-- The nonterminals have the same FOLLOW sets. -/
  follow : ∀ name, SymbolKind.ofName name = .nonterminal → ∀ t,
    t ∈ g.namesIn g.follow name ↔ t ∈ g'.namesIn g'.follow name
  /-- The same productions are predicted. -/
  predicted : ∀ nonterminal lookahead,
    g.predictedProduction? nonterminal lookahead = g'.predictedProduction? nonterminal lookahead
  /-- Tokens are parsed by the same productions, or fail with the same error. -/
  parse : ∀ parsing tokens, (g.parse parsing tokens).map Derivation.unnumbered =
    (g'.parse parsing tokens).map Derivation.unnumbered

theorem mem_namesIn {g : CompiledGrammar} {f : SetFamily g.alphabet.size} {name t : String} :
    t ∈ g.namesIn f name ↔
      ∃ c, g.alphabet.code? name = some c ∧ ∃ x ∈ f.get c, g.alphabet.name x = t := by
  rw [namesIn]
  cases g.alphabet.code? name with
  | none => simp
  | some c => simp [CompiledGrammar.name]

/-! ### Sets and predictions under other codes -/

/-- The table is sorted, so no lookahead is listed twice. -/
theorem CompiledBy.nodup_lookaheads {g : CompiledGrammar} {options : CompileOptions}
    (hg : g.CompiledBy options) (nonterminal : Code) :
    (g.table.lookaheads nonterminal).Nodup := by
  apply List.pairwise_map.mpr
  refine (hg.sorted_table.filter _).imp_of_mem fun {e f} he hf hbefore => ?_
  have hkey : e.nonterminal = f.nonterminal := by
    rw [beq_iff_eq.mp (List.mem_filter.mp he).2, beq_iff_eq.mp (List.mem_filter.mp hf).2]
  intro hlookahead
  exact TableEntry.not_sameKey_of_before hbefore (TableEntry.sameKey_iff.mpr ⟨hkey, hlookahead⟩)

/-- A set that is carried over symbol by symbol has the same names. -/
theorem mem_namesIn_of_recode {g g' : CompiledGrammar} (h : g.toGrammar.Reorders g'.toGrammar)
    {f : SetFamily g.alphabet.size} {f' : SetFamily g'.alphabet.size} {name t : String}
    (hf : ∀ c, g.alphabet.code? name = some c → ∀ x ∈ f.get c,
      g.recode g'.toGrammar x ∈ f'.get (g.recode g'.toGrammar c))
    (ht : t ∈ g.namesIn f name) : t ∈ g'.namesIn f' name := by
  obtain ⟨c, hcode, x, hx, rfl⟩ := mem_namesIn.mp ht
  refine mem_namesIn.mpr ⟨g.recode g'.toGrammar c, ?_, _, hf c hcode x hx, ?_⟩
  · rw [h.code?_recode, hcode]
    rfl
  · exact h.name_recode (CodeSet.lt_of_mem hx)

theorem lt_of_mem_lookaheads {g : CompiledGrammar} (hg : g.CompiledBy ⟨.reject, .fixedPoint⟩)
    {c t : Code} (ht : t ∈ g.table.lookaheads c) : t < g.alphabet.size := by
  obtain ⟨_, -, -, hpredict⟩ := (mem_lookaheads_iff hg).mp ht
  exact CodeSet.lt_of_mem hpredict

section Codes

variable {g g' : CompiledGrammar} (hg : g.CompiledBy ⟨.reject, .fixedPoint⟩)
  (hg' : g'.CompiledBy ⟨.reject, .fixedPoint⟩) (h : g.toGrammar.Reorders g'.toGrammar)
include hg hg' h

/-- A predicted rule is predicted under the other codes. -/
theorem exists_predicted?_recode {c t : Code} {r : Rule} (hr : g.predicted? c t = some r) :
    ∃ r', g'.predicted? (g.recode g'.toGrammar c) (g.recode g'.toGrammar t) = some r' ∧
      g'.branch r' = g.branch r := by
  obtain ⟨hmem, rfl, hpredict⟩ := hg.of_predicted? hr
  obtain ⟨r', hr', hbranch⟩ := h.exists_rule hmem
  rw [hg.follow_eq, hg.first_eq] at hpredict
  have hpredict' := h.mem_predict_recode hmem hr' hbranch hpredict
  rw [← hg'.first_eq, ← hg'.follow_eq] at hpredict'
  refine ⟨r', ?_, hbranch⟩
  rw [← (h.eq_of_branch_eq hr' hbranch).1]
  exact hg'.predicted?_of_mem_predict rfl hr' hpredict'

/-- The same alternatives are predicted. -/
theorem predicted?_recode {c t : Code} (hc : c < g.alphabet.size) (ht : t < g.alphabet.size) :
    (g'.predicted? (g.recode g'.toGrammar c) (g.recode g'.toGrammar t)).map g'.branch =
      (g.predicted? c t).map g.branch := by
  cases hr : g.predicted? c t with
  | some r =>
    obtain ⟨r', hr', hbranch⟩ := exists_predicted?_recode hg hg' h hr
    rw [hr', Option.map_some, Option.map_some, hbranch]
  | none =>
    cases hr' : g'.predicted? (g.recode g'.toGrammar c) (g.recode g'.toGrammar t) with
    | none => rfl
    | some r' =>
      -- What is predicted under the other codes is predicted under the codes of these.
      obtain ⟨q, hq, -⟩ := exists_predicted?_recode hg' hg h.symm hr'
      rw [h.recode_recode hc, h.recode_recode ht, hr] at hq
      cases hq

theorem mem_namesIn_first {name t : String} (ht : t ∈ g.namesIn g.first name) :
    t ∈ g'.namesIn g'.first name := by
  refine mem_namesIn_of_recode h (fun c hcode x hx => ?_) ht
  rw [hg.first_eq, ← First.ofSequence_singleton] at hx
  have hlt := (Alphabet.name_of_code? hcode).1
  have hx' := h.mem_first_recode (List.forall_mem_singleton.mpr hlt) hx
  rwa [List.map_singleton, First.ofSequence_singleton, ← hg'.first_eq] at hx'

theorem mem_namesIn_follow {name t : String} (hname : SymbolKind.ofName name = .nonterminal)
    (ht : t ∈ g.namesIn g.follow name) : t ∈ g'.namesIn g'.follow name := by
  refine mem_namesIn_of_recode h (fun c hcode x hx => ?_) ht
  rw [hg.follow_eq, hg.first_eq] at hx
  obtain ⟨-, rfl⟩ := Alphabet.name_of_code? hcode
  have hc : g.alphabet.isNonterminal c = true := beq_iff_eq.mpr hname
  have hx' := h.mem_follow_recode hc hx
  rwa [← hg'.first_eq, ← hg'.follow_eq] at hx'

theorem predictedProduction?_eq (nonterminal lookahead : String) :
    g.predictedProduction? nonterminal lookahead =
      g'.predictedProduction? nonterminal lookahead := by
  rw [predictedProduction?, predictedProduction?, h.code?_recode nonterminal,
    h.code?_recode lookahead]
  cases hc : g.alphabet.code? nonterminal with
  | none => rfl
  | some c =>
    cases ht : g.alphabet.code? lookahead with
    | none => rfl
    | some t =>
      have hpredicted := predicted?_recode hg hg' h (Alphabet.name_of_code? hc).1
        (Alphabet.name_of_code? ht).1
      simp only [Option.map_some, Option.bind_some]
      cases hr : g.predicted? c t with
      | none =>
        rw [hr] at hpredicted
        rw [Option.map_eq_none_iff.mp hpredicted]
        rfl
      | some r =>
        rw [hr] at hpredicted
        obtain ⟨r', hr', hbranch⟩ := Option.map_eq_some_iff.mp hpredicted
        rw [hr', Option.map_some, Option.map_some, Rule.production_eq, Rule.production_eq,
          hbranch]

theorem recode_mem_lookaheads {c t : Code} (ht : t ∈ g.table.lookaheads c) :
    g.recode g'.toGrammar t ∈ g'.table.lookaheads (g.recode g'.toGrammar c) := by
  obtain ⟨r, hr, rfl, hpredict⟩ := (mem_lookaheads_iff hg).mp ht
  obtain ⟨r', hr', -⟩ :=
    exists_predicted?_recode hg hg' h (hg.predicted?_of_mem_predict rfl hr hpredict)
  exact (mem_lookaheads_iff hg').mpr ⟨r', hg'.of_predicted? hr'⟩

/-- A nonterminal has entries for the same lookaheads. -/
theorem perm_lookaheads {c : Code} (hc : c < g.alphabet.size) :
    (g'.table.lookaheads (g.recode g'.toGrammar c)).Perm
      ((g.table.lookaheads c).map (g.recode g'.toGrammar)) := by
  have hlt := fun t => lt_of_mem_lookaheads hg (c := c) (t := t)
  have hnodup : ((g.table.lookaheads c).map (g.recode g'.toGrammar)).Nodup :=
    (hg.nodup_lookaheads c).map_on fun t ht u hu => (h.recode_inj (hlt t ht) (hlt u hu)).mp
  apply (List.perm_ext_iff_of_nodup (hg'.nodup_lookaheads _) hnodup).mpr
  intro u
  rw [List.mem_map]
  constructor
  · intro hu
    have hback := recode_mem_lookaheads hg' hg h.symm hu
    rw [h.recode_recode hc] at hback
    exact ⟨_, hback, h.symm.recode_recode (lt_of_mem_lookaheads hg' hu)⟩
  · rintro ⟨t, ht, rfl⟩
    exact recode_mem_lookaheads hg hg' h ht

/-- The terminals listed for a nonterminal have the same names. -/
theorem expectedNames_recode {c : Code} (hc : c < g.alphabet.size) :
    g'.expectedNames (g.recode g'.toGrammar c) = g.expectedNames c := by
  have hnames : ((g.table.lookaheads c).map (g.recode g'.toGrammar)).map g'.name =
      (g.table.lookaheads c).map g.name := by
    rw [List.map_map]
    exact List.map_congr_left fun t ht => h.name_recode (lt_of_mem_lookaheads hg ht)
  -- Two lists of the same names are one list once they are sorted.
  apply List.Perm.eq_of_pairwise' (r := (· ≤ ·))
  · exact List.pairwise_mergeSort' _ _
  · exact List.pairwise_mergeSort' _ _
  · have hperm := (perm_lookaheads hg hg' h hc).map g'.name
    rw [hnames] at hperm
    exact (List.mergeSort_perm ..).trans (hperm.trans (List.mergeSort_perm ..).symm)

end Codes

/-! ### Inputs under other codes -/

section Input

variable {g g' : CompiledGrammar} (h : g.toGrammar.Reorders g'.toGrammar)
  (generic : GenericTerminals)
include h

theorem spelledTerminal?_recode (lexeme : String) :
    g'.spelledTerminal? lexeme = (g.spelledTerminal? lexeme).map (g.recode g'.toGrammar) := by
  rw [spelledTerminal?, spelledTerminal?, h.code?_recode]
  cases hcode : g.alphabet.code? lexeme with
  | none => rfl
  | some c =>
    have hlt := (Alphabet.name_of_code? hcode).1
    have hepsilon := h.recode_inj hlt h.wellFormed.epsilon_lt
    have hend := h.recode_inj hlt h.wellFormed.endOfInput_lt
    rw [h.recode_epsilon] at hepsilon
    rw [h.recode_endOfInput] at hend
    simp only [Option.map_some, Option.filter_some, bne, beq_eq_decide, hepsilon, hend,
      h.isTerminal_recode hlt]
    split
    · rfl
    · rfl

theorem genericTerminal?_recode (kind : TokenKind) :
    g'.genericTerminal? generic kind =
      (g.genericTerminal? generic kind).map (g.recode g'.toGrammar) := by
  rw [genericTerminal?, genericTerminal?]
  cases generic.nameFor? kind with
  | none => rfl
  | some name =>
    simp only [Option.bind_some, h.code?_recode]
    cases hcode : g.alphabet.code? name with
    | none => rfl
    | some c =>
      simp only [Option.map_some, Option.filter_some,
        h.isTerminal_recode (Alphabet.name_of_code? hcode).1]
      split
      · rfl
      · rfl

/-- A token stands for the same terminal, or for none. -/
theorem terminalOf_recode (t : Token) :
    g'.terminalOf generic t = (g.terminalOf generic t).map (g.recode g'.toGrammar) := by
  rw [terminalOf, terminalOf, spelledTerminal?_recode h, genericTerminal?_recode h,
    ← Option.map_or]
  cases (g.spelledTerminal? t.lexeme).or (g.genericTerminal? generic t.kind) with
  | none => rfl
  | some c => rfl

/-- Tokens are read as the same terminals, or not read because of the same token. -/
theorem inputOf_recode (tokens : List Token) :
    g'.inputOf generic tokens =
      (g.inputOf generic tokens).map (List.map (g.recode g'.toGrammar)) := by
  induction tokens with
  | nil =>
    rw [inputOf, inputOf, Except.map, List.map_singleton, h.recode_endOfInput]
  | cons t rest ih =>
    rw [inputOf, inputOf, ih, terminalOf_recode h]
    cases g.inputOf generic rest with
    | error e => rfl
    | ok codes =>
      cases g.terminalOf generic t with
      | error e => rfl
      | ok c => rfl

end Input

end CompiledGrammar

namespace Machine

/-! ### Machines side by side -/

/-- Two machines hold the same but for codes and numbers. -/
structure State.Recodes (g g' : CompiledGrammar) (s s' : State) : Prop where
  stack_lt : ∀ c ∈ s.stack, c < g.alphabet.size
  input_lt : ∀ c ∈ s.input, c < g.alphabet.size
  stack : s'.stack = s.stack.map (g.recode g'.toGrammar)
  input : s'.input = s.input.map (g.recode g'.toGrammar)
  applied : s'.applied.map g'.branch = s.applied.map g.branch
  consumed : s'.consumed = s.consumed

/-- Two machines move alike: to states that are the same but for codes and numbers, or to the same
end. -/
inductive Move.Recodes (g g' : CompiledGrammar) : Move → Move → Prop where
  | next {s s' : State} (h : s.Recodes g g' s') : Recodes g g' (.next s) (.next s')
  | accept : Recodes g g' .accept .accept
  | reject (expected : List String) : Recodes g g' (.reject expected) (.reject expected)

/-- Two runs end alike. -/
inductive Outcome.Recodes (g g' : CompiledGrammar) : Outcome → Outcome → Prop where
  | accepted {s s' : State} (h : s.Recodes g g' s') : Recodes g g' (.accepted s) (.accepted s')
  | rejected {s s' : State} (h : s.Recodes g g' s') (expected : List String) :
    Recodes g g' (.rejected s expected) (.rejected s' expected)
  | unfinished {s s' : State} (h : s.Recodes g g' s') :
    Recodes g g' (.unfinished s) (.unfinished s')

namespace Outcome.Recodes

variable {g g' : CompiledGrammar} {o o' : Outcome} (h : o.Recodes g g' o')
include h

theorem isFinished_eq : o'.isFinished = o.isFinished := by
  cases h with
  | accepted => rfl
  | rejected => rfl
  | unfinished => rfl

/-- Runs that end alike say the same of the tokens, but for the numbers of rules. -/
theorem result_eq (tokens : List Token) :
    (o'.result g' tokens).map Derivation.unnumbered =
      (o.result g tokens).map Derivation.unnumbered := by
  cases h with
  | @accepted s s' h =>
    have hproductions : ∀ (a : CompiledGrammar) (rules : List Rule),
        (rules.reverse.map (DerivationStep.ofRule a.alphabet)).map DerivationStep.production =
          ((rules.map a.branch).map Branch.line).reverse := by
      intro a rules
      rw [← List.map_reverse, ← List.map_reverse, List.map_map, List.map_map]
      rfl
    simp only [result, Except.map, Derivation.unnumbered, hproductions, h.applied, h.consumed]
  | @rejected s s' h expected => simp only [result, h.consumed, Except.map]
  | unfinished => rfl

end Outcome.Recodes

section Moves

variable {g g' : CompiledGrammar} (h : g.toGrammar.Reorders g'.toGrammar)
include h

section

variable {c t : Code} {stack input : List Code} {applied applied' : List Rule} {consumed : Nat}
  (hs : State.Recodes g g' ⟨c :: stack, t :: input, applied, consumed⟩
    ⟨(c :: stack).map (g.recode g'.toGrammar), (t :: input).map (g.recode g'.toGrammar), applied',
      consumed⟩)
include hs

/-- Expanding by one alternative leads to the same symbols. -/
theorem recodes_expand {r r' : Rule} (hr : r ∈ g.rules) (hr' : r' ∈ g'.rules)
    (hbranch : g'.branch r' = g.branch r) :
    State.Recodes g g' ⟨r.expansion ++ stack, t :: input, r :: applied, consumed⟩
      ⟨r'.expansion ++ stack.map (g.recode g'.toGrammar),
        (t :: input).map (g.recode g'.toGrammar), r' :: applied', consumed⟩ := by
  constructor
  case stack_lt =>
    intro d hd
    rcases List.mem_append.mp hd with hd | hd
    · exact h.wellFormed.rhs_lt r hr d (List.mem_filter.mp hd).1
    · exact hs.stack_lt d (List.mem_cons_of_mem _ hd)
  case input_lt => exact hs.input_lt
  case stack => rw [List.map_append, h.expansion_eq hr hr' hbranch]
  case input => rfl
  case applied => rw [List.map_cons, List.map_cons, hbranch, hs.applied]
  case consumed => rfl

/-- A terminal on top is the next one to be read, or it is not. -/
theorem recodes_move_terminal (strict : Bool) (hterminal : g.alphabet.isTerminal c = true) :
    (move g strict ⟨c :: stack, t :: input, applied, consumed⟩).Recodes g g'
      (move g' strict ⟨(c :: stack).map (g.recode g'.toGrammar),
        (t :: input).map (g.recode g'.toGrammar), applied', consumed⟩) := by
  have hc := hs.stack_lt c (List.mem_cons_self ..)
  have ht := hs.input_lt t (List.mem_cons_self ..)
  have hend := h.recode_inj hc h.wellFormed.endOfInput_lt
  rw [h.recode_endOfInput] at hend
  simp only [move, List.map_cons, h.isTerminal_recode hc, hterminal, if_true, h.recode_inj hc ht,
    hend]
  by_cases he : c = t
  · rw [if_pos he, if_pos he]
    refine .next ⟨?_, ?_, rfl, rfl, hs.applied, rfl⟩
    · exact fun d hd => hs.stack_lt d (List.mem_cons_of_mem _ hd)
    · exact fun d hd => hs.input_lt d (List.mem_cons_of_mem _ hd)
  · have hname : g'.name (g.recode g'.toGrammar c) = g.name c := h.name_recode hc
    rw [if_neg he, if_neg he, hname]
    exact .reject _

/-- A nonterminal on top is expanded by the same alternative, or the input ends below it, or it has
no alternative for the next terminal. -/
theorem recodes_move_nonterminal (hg : g.CompiledBy ⟨.reject, .fixedPoint⟩)
    (hg' : g'.CompiledBy ⟨.reject, .fixedPoint⟩) (strict : Bool)
    (hterminal : g.alphabet.isTerminal c = false) :
    (move g strict ⟨c :: stack, t :: input, applied, consumed⟩).Recodes g g'
      (move g' strict ⟨(c :: stack).map (g.recode g'.toGrammar),
        (t :: input).map (g.recode g'.toGrammar), applied', consumed⟩) := by
  have hc := hs.stack_lt c (List.mem_cons_self ..)
  have ht := hs.input_lt t (List.mem_cons_self ..)
  have hend := h.recode_inj ht h.wellFormed.endOfInput_lt
  rw [h.recode_endOfInput] at hend
  simp only [move, List.map_cons, h.isTerminal_recode hc, hterminal, Bool.false_eq_true, if_false,
    hend]
  by_cases haccept : t = Code.endOfInput ∧ strict = false
  · rw [if_pos haccept, if_pos haccept]
    exact .accept
  · rw [if_neg haccept, if_neg haccept]
    have hpredicted := CompiledGrammar.predicted?_recode hg hg' h hc ht
    cases hr : g.predicted? c t with
    | none =>
      rw [hr] at hpredicted
      rw [Option.map_eq_none_iff.mp hpredicted,
        CompiledGrammar.expectedNames_recode hg hg' h hc]
      exact .reject _
    | some r =>
      rw [hr] at hpredicted
      obtain ⟨r', hr', hbranch⟩ := Option.map_eq_some_iff.mp hpredicted
      rw [hr']
      exact .next (recodes_expand h hs (hg.of_predicted? hr).1 (hg'.of_predicted? hr').1 hbranch)

end

/-- The machines begin alike. -/
theorem recodes_initial {word : List Code} (hword : ∀ c ∈ word, c < g.alphabet.size) :
    State.Recodes g g' (.initial g (word ++ [Code.endOfInput]))
      (.initial g' (word.map (g.recode g'.toGrammar) ++ [Code.endOfInput])) := by
  have hend := h.wellFormed.endOfInput_lt
  have hstart := Alphabet.lt_size_of_isNonterminal h.wellFormed.isNonterminal_start
  constructor
  case stack_lt => exact List.forall_mem_cons.mpr ⟨hstart, List.forall_mem_singleton.mpr hend⟩
  case input_lt =>
    exact List.forall_mem_append.mpr ⟨hword, List.forall_mem_singleton.mpr hend⟩
  case stack =>
    rw [State.initial, State.initial, List.map_cons, List.map_singleton, h.recode_start,
      h.recode_endOfInput]
  case input =>
    rw [State.initial, State.initial, List.map_append, List.map_singleton, h.recode_endOfInput]
  case applied => rfl
  case consumed => rfl

variable (hg : g.CompiledBy ⟨.reject, .fixedPoint⟩) (hg' : g'.CompiledBy ⟨.reject, .fixedPoint⟩)
include hg hg'

/-- Machines that hold the same move alike. -/
theorem recodes_move (strict : Bool) {s s' : State} (hs : s.Recodes g g' s') :
    (move g strict s).Recodes g g' (move g' strict s') := by
  obtain ⟨stack, input, applied, consumed⟩ := s
  obtain ⟨stack', input', applied', consumed'⟩ := s'
  obtain rfl : stack' = _ := hs.stack
  obtain rfl : input' = _ := hs.input
  obtain rfl : consumed' = consumed := hs.consumed
  cases stack with
  | nil => exact .accept
  | cons c stack =>
    cases input with
    | nil => exact .accept
    | cons t input =>
      cases hterminal : g.alphabet.isTerminal c with
      | true => exact recodes_move_terminal h hs strict hterminal
      | false => exact recodes_move_nonterminal h hs hg hg' strict hterminal

/-- Machines that hold the same end alike. -/
theorem recodes_run (strict : Bool) (n : Nat) {s s' : State} (hs : s.Recodes g g' s') :
    (run g strict n s).Recodes g g' (run g' strict n s') := by
  induction n generalizing s s' with
  | zero => exact .unfinished hs
  | succ n ih =>
    have hmove := recodes_move h hg hg' strict hs
    rw [run, run]
    generalize move g strict s = m at hmove ⊢
    generalize move g' strict s' = m' at hmove ⊢
    cases hmove with
    | next hnext => exact ih hnext
    | accept => exact .accepted hs
    | reject expected => exact .rejected hs expected

end Moves

end Machine

namespace CompiledGrammar

section Parse

variable {g g' : CompiledGrammar} (h : g.toGrammar.Reorders g'.toGrammar)
  (hg : g.CompiledBy ⟨.reject, .fixedPoint⟩) (hg' : g'.CompiledBy ⟨.reject, .fixedPoint⟩)
include h hg hg'

/-- Tokens are parsed by the same productions, or fail with the same error. -/
theorem parse_recode (parsing : ParseOptions) (tokens : List Token) :
    (g.parse parsing tokens).map Derivation.unnumbered =
      (g'.parse parsing tokens).map Derivation.unnumbered := by
  have hread := inputOf_recode h parsing.generic (Token.significant tokens)
  cases hinput : g.inputOf parsing.generic (Token.significant tokens) with
  | error e =>
    rw [hinput] at hread
    rw [parse_eq_error_of_inputOf hinput, parse_eq_error_of_inputOf hread]
  | ok input =>
    rw [hinput] at hread
    obtain ⟨word, hword, rfl⟩ := inputOf_eq_ok.mp hinput
    obtain ⟨word', hword', hinput'⟩ := inputOf_eq_ok.mp hread
    rw [List.map_append, List.map_singleton, h.recode_endOfInput] at hinput'
    obtain rfl := List.append_cancel_right hinput'
    obtain ⟨n, hn⟩ : Machine.Halts g parsing.strict (.initial g (word ++ [Code.endOfInput])) :=
      Machine.halts hg rfl rfl _ _ _ _
    have hrun := Machine.recodes_run h hg hg' parsing.strict n
      (Machine.recodes_initial h hword.lt_size)
    have hn' := hrun.isFinished_eq.trans hn
    rw [parse_eq_result_of_run hg hword hn, parse_eq_result_of_run hg' hword' hn',
      hrun.result_eq]

/-- The grammars are the same in names. -/
theorem sameInNames : g.SameInNames g' where
  names := h.names
  first _ _ := ⟨mem_namesIn_first hg hg' h, mem_namesIn_first hg' hg h.symm⟩
  follow _ hname _ := ⟨mem_namesIn_follow hg hg' h hname, mem_namesIn_follow hg' hg h.symm hname⟩
  predicted := predictedProduction?_eq hg hg' h
  parse := parse_recode h hg hg'

end Parse

/-- A text that compiles in one order of its lines compiles in every other one. -/
theorem exists_ofText_of_perm {text text' : String}
    (hlines : (Grammar.productionTexts text).Perm (Grammar.productionTexts text'))
    (hstart : ∀ name name', Grammar.StartsWith text name → Grammar.StartsWith text' name' →
      name = name')
    (h : ∃ g, ofText text ⟨.reject, .fixedPoint⟩ = .ok g) :
    ∃ g', ofText text' ⟨.reject, .fixedPoint⟩ = .ok g' := by
  obtain ⟨g, hg⟩ := h
  have hread := ofText_toGrammar hg
  obtain ⟨grammar', hread'⟩ := Grammar.exists_ofText_of_perm hlines ⟨_, hread⟩
  have hreorders := Grammar.reorders_of_perm hlines hstart hread hread'
  have hLL1 := (exists_ofText_reject_iff hread .fixedPoint).mp ⟨g, hg⟩
  exact (exists_ofText_reject_iff hread' .fixedPoint).mpr (hreorders.ll1 hLL1)

/-- For every two grammar texts whose production lines are the same up to their order, with the same
left side on the first one: with conflicts refused and complete FOLLOW sets both compile or none
does. If they do, the compiled grammars are the same in names: they have the same FIRST and FOLLOW
sets, predict the same productions, and parse all tokens by the same productions or with the same
error. -/
theorem sameInNames_of_perm {text text' : String}
    (hlines : (Grammar.productionTexts text).Perm (Grammar.productionTexts text'))
    (hstart : ∀ name name', Grammar.StartsWith text name → Grammar.StartsWith text' name' →
      name = name') :
    ((∃ g, ofText text ⟨.reject, .fixedPoint⟩ = .ok g) ↔
        ∃ g', ofText text' ⟨.reject, .fixedPoint⟩ = .ok g') ∧
      ∀ g g', ofText text ⟨.reject, .fixedPoint⟩ = .ok g →
        ofText text' ⟨.reject, .fixedPoint⟩ = .ok g' → g.SameInNames g' := by
  constructor
  · constructor
    · exact exists_ofText_of_perm hlines hstart
    · exact exists_ofText_of_perm hlines.symm fun name name' hname hname' =>
        (hstart name' name hname' hname).symm
  · intro g g' hg hg'
    have hreorders := Grammar.reorders_of_perm hlines hstart (ofText_toGrammar hg)
      (ofText_toGrammar hg')
    exact sameInNames hreorders (compiledBy_of_ofText hg) (compiledBy_of_ofText hg')

/-- Nested brackets around a word, which is empty or stands in front of a mark. -/
def bracketText : String :=
  "S -> a S b | U c\nU -> u\nS -> EPSILON"

/-- The same lines in another order, with a remark, a blank line and other endings. -/
def reorderedBracketText : String :=
  "# the word first\r\nS -> EPSILON\r\nU -> u\r\n\r\nS -> a S b | U c\r\n"

/-- The two texts give their symbols different codes. -/
theorem sameInNames_of_perm_bracket :
    (Grammar.productionTexts bracketText).Perm (Grammar.productionTexts reorderedBracketText) ∧
      (∀ name name', Grammar.StartsWith bracketText name →
        Grammar.StartsWith reorderedBracketText name' → name = name') ∧
      ∃ g g', ofText bracketText ⟨.reject, .fixedPoint⟩ = .ok g ∧
        ofText reorderedBracketText ⟨.reject, .fixedPoint⟩ = .ok g' ∧
        g.alphabet ≠ g'.alphabet ∧ g.SameInNames g' := by
  have hlines : (Grammar.productionTexts bracketText).Perm
      (Grammar.productionTexts reorderedBracketText) := by
    decide +kernel
  have hrun : (ofText bracketText ⟨.reject, .fixedPoint⟩).map (fun g =>
      (g.alphabet.names, g.name g.start)) =
        .ok (["EPSILON", "$", "S", "a", "b", "U", "c", "u"], "S") := by
    decide +kernel
  have hrun' : (ofText reorderedBracketText ⟨.reject, .fixedPoint⟩).map (fun g =>
      (g.alphabet.names, g.name g.start)) =
        .ok (["EPSILON", "$", "S", "U", "u", "a", "b", "c"], "S") := by
    decide +kernel
  obtain ⟨g, hg, hboth⟩ := map_eq_ok.mp hrun
  obtain ⟨g', hg', hboth'⟩ := map_eq_ok.mp hrun'
  obtain ⟨hnames, hroot⟩ := Prod.mk.inj hboth
  obtain ⟨hnames', hroot'⟩ := Prod.mk.inj hboth'
  have hstart : ∀ name name', Grammar.StartsWith bracketText name →
      Grammar.StartsWith reorderedBracketText name' → name = name' := by
    intro name name' hname hname'
    rw [hname.unique (Grammar.startsWith_start (ofText_toGrammar hg)),
      hname'.unique (Grammar.startsWith_start (ofText_toGrammar hg'))]
    exact hroot.trans hroot'.symm
  refine ⟨hlines, hstart, g, g', hg, hg', ?_, (sameInNames_of_perm hlines hstart).2 g g' hg hg'⟩
  intro he
  have hcodes := congrArg Alphabet.names he
  rw [hnames, hnames'] at hcodes
  exact absurd hcodes (by decide)

end CompiledGrammar

end PredictiveFrontend

import PredictiveFrontend.Proofs.Grammar.Follows
import PredictiveFrontend.Proofs.Grammar.Prediction

/-!
# The prediction table is exact

If later claims take over, the table predicts for a nonterminal and a lookahead the last rule that
the lookahead predicts, and the log shows every change of hands on the way there. Rules claim one
after the other, so a table changes rule by rule: a rule takes an entry at most once, however often
it claims it, and leaves all others alone.
-/

namespace PredictiveFrontend

/-! ### The order of the entries -/

namespace TableEntry

theorem sameKey_iff {e f : TableEntry} :
    e.sameKey f = true ↔ e.nonterminal = f.nonterminal ∧ e.lookahead = f.lookahead := by
  simp [sameKey]

theorem before_iff {e f : TableEntry} : e.before f = true ↔ e.nonterminal < f.nonterminal ∨
    (e.nonterminal = f.nonterminal ∧ e.lookahead < f.lookahead) := by
  simp [before]

theorem before_trans {e f x : TableEntry} (h : e.before f = true) (h' : f.before x = true) :
    e.before x = true := by
  simp only [before_iff, Code] at *
  omega

theorem before_of_sameKey {e f x : TableEntry} (h : e.sameKey f = true)
    (h' : f.before x = true) : e.before x = true := by
  simp only [before_iff, sameKey_iff, Code] at *
  omega

/-- Of two entries with different keys one comes before the other. -/
theorem before_of_not_before {e f : TableEntry} (hs : ¬e.sameKey f = true)
    (hb : ¬e.before f = true) : f.before e = true := by
  simp only [before_iff, sameKey_iff, Code] at *
  omega

theorem not_sameKey_of_before {e f : TableEntry} (h : e.before f = true) :
    ¬e.sameKey f = true := by
  simp only [before_iff, sameKey_iff, Code] at *
  omega

end TableEntry

namespace PredictionTable

variable {t : PredictionTable} {nonterminal lookahead : Code}

/-- The entries stand in ascending order of their keys, so no two have the same key. -/
def Sorted (entries : List TableEntry) : Prop :=
  entries.Pairwise fun e f => e.before f = true

theorem mem_of_mem_insertEntry {e f : TableEntry} {entries : List TableEntry}
    (h : f ∈ insertEntry e entries) : f = e ∨ f ∈ entries := by
  induction entries with
  | nil => exact Or.inl (List.mem_singleton.mp h)
  | cons first rest ih =>
    rw [insertEntry] at h
    split at h
    · rcases List.mem_cons.mp h with rfl | h
      · exact Or.inl rfl
      · exact Or.inr (List.mem_cons_of_mem _ h)
    · split at h
      · exact List.mem_cons.mp h
      · rcases List.mem_cons.mp h with rfl | h
        · exact Or.inr (List.mem_cons_self ..)
        · rcases ih h with rfl | h
          · exact Or.inl rfl
          · exact Or.inr (List.mem_cons_of_mem _ h)

/-- An entry is put in its place. -/
theorem sorted_insertEntry {e : TableEntry} {entries : List TableEntry} (h : Sorted entries) :
    Sorted (insertEntry e entries) := by
  induction entries with
  | nil => exact List.pairwise_singleton _ _
  | cons first rest ih =>
    obtain ⟨hfirst, hrest⟩ := List.pairwise_cons.mp h
    rw [insertEntry]
    by_cases hs : e.sameKey first = true
    · rw [if_pos hs]
      exact List.pairwise_cons.mpr
        ⟨fun f hf => TableEntry.before_of_sameKey hs (hfirst f hf), hrest⟩
    · rw [if_neg hs]
      by_cases hb : e.before first = true
      · rw [if_pos hb]
        refine List.pairwise_cons.mpr ⟨fun f hf => ?_, h⟩
        rcases List.mem_cons.mp hf with rfl | hf
        · exact hb
        · exact TableEntry.before_trans hb (hfirst f hf)
      · rw [if_neg hb]
        refine List.pairwise_cons.mpr ⟨fun f hf => ?_, ih hrest⟩
        rcases mem_of_mem_insertEntry hf with rfl | hf
        · exact TableEntry.before_of_not_before hs hb
        · exact hfirst f hf

/-- The entries are sorted after any number of insertions. -/
theorem sorted_foldl_put {entries : List TableEntry} (h : Sorted t.entries) :
    Sorted (entries.foldl put t).entries := by
  induction entries generalizing t with
  | nil => exact h
  | cons e rest ih => exact ih (sorted_insertEntry h)

/-- In a sorted table every entry is found under its key, and nothing else is found. -/
theorem mem_entries_iff (h : Sorted t.entries) {e : TableEntry} :
    e ∈ t.entries ↔ t.get? e.nonterminal e.lookahead = some e.rule := by
  obtain ⟨entries, overwrites⟩ := t
  simp only [get?] at h ⊢
  induction entries with
  | nil => simp
  | cons first rest ih =>
    obtain ⟨hfirst, hrest⟩ := List.pairwise_cons.mp h
    by_cases hkey : first.nonterminal = e.nonterminal ∧ first.lookahead = e.lookahead
    · have he : e ∉ rest := fun he =>
        TableEntry.not_sameKey_of_before (hfirst e he) (TableEntry.sameKey_iff.mpr hkey)
      rw [List.find?_cons_of_pos (by simpa using hkey), List.mem_cons]
      simp only [he, or_false, Option.map_some, Option.some.injEq]
      constructor
      · rintro rfl
        rfl
      · intro hrule
        obtain ⟨nonterminal, lookahead, rule⟩ := e
        obtain ⟨rfl, rfl⟩ := hkey
        obtain rfl := hrule
        rfl
    · have hne : e ≠ first := by
        rintro rfl
        exact hkey ⟨rfl, rfl⟩
      rw [List.find?_cons_of_neg (by simpa using hkey), List.mem_cons, ← ih hrest]
      simp only [hne, false_or]

/-! ### The claims of one rule -/

/-- The overwrites of one entry in the order in which they happened. -/
def overwritesAt (t : PredictionTable) (nonterminal lookahead : Code) : List Overwrite :=
  t.overwrites.filter fun o => o.nonterminal == nonterminal && o.lookahead == lookahead

/-- An insertion overwrites nothing but the entry of its own key. -/
theorem overwritesAt_put (t : PredictionTable) (e : TableEntry) (nonterminal lookahead : Code) :
    (t.put e).overwritesAt nonterminal lookahead = t.overwritesAt nonterminal lookahead ++
      if e.nonterminal = nonterminal ∧ e.lookahead = lookahead then (t.overwriteBy? e).toList
      else [] := by
  simp only [overwritesAt, put, List.filter_append]
  congr 1
  cases ho : t.overwriteBy? e with
  | none => simp
  | some o =>
    obtain ⟨existing, -, ho⟩ := Option.bind_eq_some_iff.mp ho
    by_cases he : existing = e.rule
    · rw [if_pos he] at ho
      cases ho
    · rw [if_neg he] at ho
      cases ho
      by_cases hkey : e.nonterminal = nonterminal ∧ e.lookahead = lookahead
      · simp [hkey]
      · simp [hkey]

/-- Claims for other keys leave an entry and its log alone. -/
theorem foldl_put_of_forall_ne {entries : List TableEntry}
    (h : ∀ e ∈ entries, ¬(e.nonterminal = nonterminal ∧ e.lookahead = lookahead)) :
    (entries.foldl put t).get? nonterminal lookahead = t.get? nonterminal lookahead ∧
      (entries.foldl put t).overwritesAt nonterminal lookahead =
        t.overwritesAt nonterminal lookahead := by
  induction entries generalizing t with
  | nil => exact ⟨rfl, rfl⟩
  | cons e rest ih =>
    obtain ⟨he, hrest⟩ := List.forall_mem_cons.mp h
    obtain ⟨hget, hlog⟩ := ih (t := t.put e) hrest
    rw [get?_put, if_neg he] at hget
    rw [overwritesAt_put, if_neg he, List.append_nil] at hlog
    exact ⟨hget, hlog⟩

/-- A rule that holds an entry keeps it by further claims, and nothing is logged. -/
theorem foldl_put_of_get?_eq {number : Nat} {entries : List TableEntry}
    (h : ∀ e ∈ entries, e.rule = number) (hget : t.get? nonterminal lookahead = some number) :
    (entries.foldl put t).get? nonterminal lookahead = some number ∧
      (entries.foldl put t).overwritesAt nonterminal lookahead =
        t.overwritesAt nonterminal lookahead := by
  induction entries generalizing t with
  | nil => exact ⟨hget, rfl⟩
  | cons e rest ih =>
    obtain ⟨he, hrest⟩ := List.forall_mem_cons.mp h
    by_cases hkey : e.nonterminal = nonterminal ∧ e.lookahead = lookahead
    · have hkeeps : (t.put e).get? nonterminal lookahead = some number := by
        rw [get?_put, if_pos hkey, he]
      have hsilent : t.overwriteBy? e = none := by
        simp [overwriteBy?, hkey, hget, he]
      obtain ⟨hget', hlog⟩ := ih hrest hkeeps
      rw [overwritesAt_put, if_pos hkey, hsilent] at hlog
      exact ⟨hget', by simpa using hlog⟩
    · have hkeeps : (t.put e).get? nonterminal lookahead = some number := by
        rw [get?_put, if_neg hkey, hget]
      obtain ⟨hget', hlog⟩ := ih hrest hkeeps
      rw [overwritesAt_put, if_neg hkey, List.append_nil] at hlog
      exact ⟨hget', hlog⟩

/-- A rule that claims an entry takes it, and logs once whom it took it from, if that was another
rule. -/
theorem foldl_put_of_mem {number : Nat} {entries : List TableEntry}
    (h : ∀ e ∈ entries, e.rule = number) (hmem : ⟨nonterminal, lookahead, number⟩ ∈ entries) :
    (entries.foldl put t).get? nonterminal lookahead = some number ∧
      (entries.foldl put t).overwritesAt nonterminal lookahead =
        t.overwritesAt nonterminal lookahead ++
          (t.overwriteBy? ⟨nonterminal, lookahead, number⟩).toList := by
  induction entries generalizing t with
  | nil => cases hmem
  | cons e rest ih =>
    obtain ⟨he, hrest⟩ := List.forall_mem_cons.mp h
    by_cases hkey : e.nonterminal = nonterminal ∧ e.lookahead = lookahead
    · -- The first claim takes the entry; those behind it find it taken.
      obtain ⟨rfl, rfl⟩ := hkey
      subst he
      have htaken : (t.put e).get? e.nonterminal e.lookahead = some e.rule := by
        rw [get?_put, if_pos ⟨rfl, rfl⟩]
      obtain ⟨hget, hlog⟩ := foldl_put_of_get?_eq hrest htaken
      rw [overwritesAt_put, if_pos ⟨rfl, rfl⟩] at hlog
      exact ⟨hget, hlog⟩
    · have hmem : ⟨nonterminal, lookahead, number⟩ ∈ rest := by
        refine (List.mem_cons.mp hmem).resolve_left ?_
        rintro rfl
        exact hkey ⟨rfl, rfl⟩
      obtain ⟨hget, hlog⟩ := ih (t := t.put e) hrest hmem
      have hsame : (t.put e).overwriteBy? ⟨nonterminal, lookahead, number⟩ =
          t.overwriteBy? ⟨nonterminal, lookahead, number⟩ := by
        simp only [overwriteBy?]
        rw [get?_put, if_neg hkey]
      rw [overwritesAt_put, if_neg hkey, List.append_nil, hsame] at hlog
      exact ⟨hget, hlog⟩

end PredictionTable

/-! ### Rule by rule -/

/-- The numbers of the rules of a nonterminal that a lookahead predicts, in order. -/
def Rule.candidates {size : Nat} (first follow : SetFamily size) (rules : List Rule)
    (nonterminal lookahead : Code) : List Nat :=
  (rules.filter fun r => r.lhs = nonterminal ∧ lookahead ∈ r.predict first follow).map Rule.number

/-- The overwrites of an entry that goes from hand to hand, from one rule to the next. -/
def Overwrite.chain (nonterminal lookahead : Code) (numbers : List Nat) : List Overwrite :=
  List.zipWith (fun existing replacement => ⟨nonterminal, lookahead, existing, replacement⟩)
    numbers numbers.tail

theorem Rule.mem_candidates {size : Nat} {first follow : SetFamily size} {rules : List Rule}
    {nonterminal lookahead : Code} {number : Nat} :
    number ∈ candidates first follow rules nonterminal lookahead ↔ ∃ r ∈ rules,
      r.number = number ∧ r.lhs = nonterminal ∧ lookahead ∈ r.predict first follow := by
  simp only [candidates, List.mem_map, List.mem_filter, decide_eq_true_eq]
  constructor
  · rintro ⟨r, ⟨hr, hl, ht⟩, hn⟩
    exact ⟨r, hr, hn, hl, ht⟩
  · rintro ⟨r, hr, hn, hl, ht⟩
    exact ⟨r, ⟨hr, hl, ht⟩, hn⟩

namespace PredictionTable

variable {size : Nat} {first follow : SetFamily size} {t : PredictionTable}
  {nonterminal lookahead : Code}

/-- Claims of a rule that the lookahead does not predict leave the entry alone. -/
theorem foldl_put_claims_of_not {r : Rule}
    (h : ¬(r.lhs = nonterminal ∧ lookahead ∈ r.predict first follow)) :
    ((r.claims first follow).foldl put t).get? nonterminal lookahead =
        t.get? nonterminal lookahead ∧
      ((r.claims first follow).foldl put t).overwritesAt nonterminal lookahead =
        t.overwritesAt nonterminal lookahead := by
  refine foldl_put_of_forall_ne fun e he => ?_
  obtain ⟨hl, -, ht⟩ := Rule.mem_claims.mp he
  rintro ⟨rfl, rfl⟩
  exact h ⟨hl.symm, ht⟩

/-- By its claims a rule that the lookahead predicts takes the entry. -/
theorem foldl_put_claims {r : Rule} (hl : r.lhs = nonterminal)
    (ht : lookahead ∈ r.predict first follow) :
    ((r.claims first follow).foldl put t).get? nonterminal lookahead = some r.number ∧
      ((r.claims first follow).foldl put t).overwritesAt nonterminal lookahead =
        t.overwritesAt nonterminal lookahead ++
          (t.overwriteBy? ⟨nonterminal, lookahead, r.number⟩).toList := by
  refine foldl_put_of_mem (fun e he => (Rule.mem_claims.mp he).2.1) ?_
  exact Rule.mem_claims.mpr ⟨hl.symm, rfl, ht⟩

/-- A rule that takes an entry prolongs the chain of its owners by one. -/
theorem overwriteBy?_append_chain {number : Nat} {later : List Nat}
    (h : ∀ existing ∈ t.get? nonterminal lookahead, existing < number) :
    (t.overwriteBy? ⟨nonterminal, lookahead, number⟩).toList ++
        Overwrite.chain nonterminal lookahead (number :: later) =
      Overwrite.chain nonterminal lookahead
        ((t.get? nonterminal lookahead).toList ++ number :: later) := by
  cases hget : t.get? nonterminal lookahead with
  | none => simp [overwriteBy?, hget]
  | some existing =>
    have hne : existing ≠ number := Nat.ne_of_lt (h existing hget)
    have htaken : t.overwriteBy? ⟨nonterminal, lookahead, number⟩ =
        some ⟨nonterminal, lookahead, existing, number⟩ := by
      simp [overwriteBy?, hget, hne]
    rw [htaken]
    rfl

/-- After the claims of rules in ascending order an entry is held by the last rule that takes it,
and has gone from hand to hand among all that do, beginning with the rule that held it before. -/
theorem foldl_put_flatMap_claims {rules : List Rule} {numbers : List Nat}
    (hn : numbers = (t.get? nonterminal lookahead).toList ++
      Rule.candidates first follow rules nonterminal lookahead)
    (h : numbers.Pairwise (· < ·)) :
    ((rules.flatMap (Rule.claims first follow)).foldl put t).get? nonterminal lookahead =
        numbers.getLast? ∧
      ((rules.flatMap (Rule.claims first follow)).foldl put t).overwritesAt nonterminal lookahead =
        t.overwritesAt nonterminal lookahead ++
          Overwrite.chain nonterminal lookahead numbers := by
  induction rules generalizing t numbers with
  | nil =>
    subst hn
    cases hget : t.get? nonterminal lookahead with
    | none => simp [Rule.candidates, Overwrite.chain, hget]
    | some existing => simp [Rule.candidates, Overwrite.chain, hget]
  | cons r rest ih =>
    rw [List.flatMap_cons, List.foldl_append]
    by_cases hr : r.lhs = nonterminal ∧ lookahead ∈ r.predict first follow
    · have hcons : Rule.candidates first follow (r :: rest) nonterminal lookahead =
          r.number :: Rule.candidates first follow rest nonterminal lookahead := by
        simp [Rule.candidates, hr]
      rw [hcons] at hn
      subst hn
      obtain ⟨-, hlater, hbefore⟩ := List.pairwise_append.mp h
      obtain ⟨hget, hlog⟩ := foldl_put_claims (t := t) hr.1 hr.2
      have hheld : r.number :: Rule.candidates first follow rest nonterminal lookahead =
          (((r.claims first follow).foldl put t).get? nonterminal lookahead).toList ++
            Rule.candidates first follow rest nonterminal lookahead := by
        rw [hget]
        rfl
      obtain ⟨hlast, hchain⟩ := ih hheld hlater
      constructor
      · rw [hlast, List.getLast?_append_cons]
      · rw [hchain, hlog, List.append_assoc, overwriteBy?_append_chain]
        intro existing hexisting
        exact hbefore existing (Option.mem_toList.mpr hexisting) r.number (List.mem_cons_self ..)
    · have hcons : Rule.candidates first follow (r :: rest) nonterminal lookahead =
          Rule.candidates first follow rest nonterminal lookahead := by
        simp [Rule.candidates, hr]
      obtain ⟨hget, hlog⟩ := foldl_put_claims_of_not (t := t) hr
      rw [hcons, ← hget] at hn
      rw [← hlog]
      exact ih hn h

end PredictionTable

/-! ### Compiled tables -/

namespace Grammar

/-- Rules stand in the order of their numbers. -/
theorem WellFormed.pairwise_number {g : Grammar} (wf : g.WellFormed) :
    g.rules.Pairwise fun r r' => r.number < r'.number := by
  rw [List.pairwise_iff_getElem]
  intro i j hi hj hlt
  rw [wf.number i _ (List.getElem?_eq_getElem hi), wf.number j _ (List.getElem?_eq_getElem hj)]
  exact hlt

/-- The rules that compete for an entry stand in the order of their numbers. -/
theorem WellFormed.pairwise_candidates {g : Grammar} (wf : g.WellFormed)
    (first follow : SetFamily g.alphabet.size) (nonterminal lookahead : Code) :
    (Rule.candidates first follow g.rules nonterminal lookahead).Pairwise (· < ·) :=
  List.pairwise_map.mpr (wf.pairwise_number.filter _)

end Grammar

namespace CompiledGrammar

variable {g : CompiledGrammar} {strategy : FollowStrategy}

/-- If later claims take over, every grammar that is read compiles. -/
theorem exists_ofText_lastWriteWins {text : String} {grammar : Grammar}
    (h : Grammar.ofText text = .ok grammar) (strategy : FollowStrategy) :
    ∃ g, ofText text ⟨.lastWriteWins, strategy⟩ = .ok g ∧ g.toGrammar = grammar := by
  simp only [ofText, ofGrammar, bind_eq_ok, map_eq_ok]
  exact ⟨_, ⟨grammar, h, _, rfl, rfl⟩, rfl⟩

namespace CompiledBy

/-- The table is made of all claims, one after the other. -/
theorem table_eq_foldl {options : CompileOptions} (hg : g.CompiledBy options) :
    g.table = (g.toGrammar.claims g.first g.follow).foldl PredictionTable.put .empty :=
  Grammar.predictionTable_eq_foldl hg.table_eq

/-- The marker of the empty word predicts no rule. -/
theorem epsilon_not_mem_predict {options : CompileOptions} (hg : g.CompiledBy options) (r : Rule) :
    Code.epsilon ∉ r.predict g.first g.follow := by
  intro he
  rcases Rule.mem_predict.mp he with ⟨-, hne⟩ | ⟨-, he⟩
  · exact hne rfl
  · rw [hg.follow_eq, hg.first_eq] at he
    exact Grammar.epsilon_not_mem_follow hg.wellFormed options.followStrategy r.lhs he

/-- An entry is held by the last rule that takes it and goes from hand to hand among all that do. -/
theorem get?_table (hg : g.CompiledBy ⟨.lastWriteWins, strategy⟩) (nonterminal lookahead : Code) :
    g.table.get? nonterminal lookahead =
        (Rule.candidates g.first g.follow g.rules nonterminal lookahead).getLast? ∧
      g.table.overwritesAt nonterminal lookahead = Overwrite.chain nonterminal lookahead
        (Rule.candidates g.first g.follow g.rules nonterminal lookahead) := by
  rw [hg.table_eq_foldl]
  exact PredictionTable.foldl_put_flatMap_claims (t := .empty) rfl
    (hg.wellFormed.pairwise_candidates g.first g.follow nonterminal lookahead)

theorem sorted_table {options : CompileOptions} (hg : g.CompiledBy options) :
    PredictionTable.Sorted g.table.entries := by
  rw [hg.table_eq_foldl]
  exact PredictionTable.sorted_foldl_put List.Pairwise.nil

/-- Entries are those that are found under their keys. -/
theorem mem_entries_table {options : CompileOptions} (hg : g.CompiledBy options)
    {e : TableEntry} :
    e ∈ g.table.entries ↔ g.table.get? e.nonterminal e.lookahead = some e.rule :=
  PredictionTable.mem_entries_iff hg.sorted_table

end CompiledBy

/-- For every grammar text that is read, and both ways to compute FOLLOW sets: if later claims take
over, there is an entry for a nonterminal and a lookahead exactly if the lookahead predicts a rule
of the nonterminal; the entry is the last of these rules, and the overwrites logged for it lead from
the first of them to the last, one by one. The marker of the empty word is never a lookahead. -/
theorem table_exact {text : String} {grammar : Grammar} (h : Grammar.ofText text = .ok grammar)
    (strategy : FollowStrategy) :
    ∃ g, ofText text ⟨.lastWriteWins, strategy⟩ = .ok g ∧ g.toGrammar = grammar ∧
      g.first = g.toGrammar.first ∧ g.follow = g.toGrammar.follow strategy g.first ∧
      (∀ e, e ∈ g.table.entries ↔ g.table.get? e.nonterminal e.lookahead = some e.rule) ∧
      (∀ nonterminal lookahead, ∃ numbers : List Nat, numbers.Pairwise (· < ·) ∧
        (∀ number, number ∈ numbers ↔ ∃ r ∈ g.rules, r.number = number ∧ r.lhs = nonterminal ∧
          lookahead ∈ r.predict g.first g.follow) ∧
        g.table.get? nonterminal lookahead = numbers.getLast? ∧
        g.table.overwritesAt nonterminal lookahead =
          Overwrite.chain nonterminal lookahead numbers) ∧
      (∀ nonterminal, g.table.get? nonterminal Code.epsilon = none) ∧
      ∀ o ∈ g.table.overwrites, o.lookahead ≠ Code.epsilon := by
  obtain ⟨g, hg, hgrammar⟩ := exists_ofText_lastWriteWins h strategy
  have hc := compiledBy_of_ofText hg
  have hepsilon : ∀ nonterminal,
      Rule.candidates g.first g.follow g.rules nonterminal Code.epsilon = [] := by
    intro nonterminal
    rw [List.eq_nil_iff_forall_not_mem]
    intro number hnumber
    obtain ⟨r, -, -, -, he⟩ := Rule.mem_candidates.mp hnumber
    exact hc.epsilon_not_mem_predict r he
  refine ⟨g, hg, hgrammar, hc.first_eq, hc.follow_eq, fun e => hc.mem_entries_table,
    fun nonterminal lookahead => ?_, fun nonterminal => ?_, fun o ho => ?_⟩
  · obtain ⟨hget, hlog⟩ := hc.get?_table nonterminal lookahead
    exact ⟨_, hc.wellFormed.pairwise_candidates g.first g.follow nonterminal lookahead,
      fun number => Rule.mem_candidates, hget, hlog⟩
  · rw [(hc.get?_table nonterminal Code.epsilon).1, hepsilon]
    rfl
  · intro he
    have hlog := (hc.get?_table o.nonterminal Code.epsilon).2
    rw [hepsilon] at hlog
    have hmem : o ∈ g.table.overwritesAt o.nonterminal Code.epsilon :=
      List.mem_filter.mpr ⟨ho, by simp [he]⟩
    rw [hlog] at hmem
    cases hmem

/-- Three rules of `A` that `a` predicts, one of them through what follows `A` and one through
another nonterminal. -/
def contestedText : String :=
  "S -> A a\nA -> a | EPSILON | B\nB -> a | EPSILON"

/-- The grammar of that text; `A` has code 3 and `a` code 4. -/
def contested : Grammar where
  alphabet := ⟨["EPSILON", "$", "S", "A", "a", "B"]⟩
  rules := [⟨0, 2, [3, 4]⟩, ⟨1, 3, [4]⟩, ⟨2, 3, [0]⟩, ⟨3, 3, [5]⟩, ⟨4, 5, [4]⟩, ⟨5, 5, [0]⟩]
  start := 2

theorem ofText_contestedText : Grammar.ofText contestedText = .ok contested := by
  decide +kernel

/-- The entry of `A` and `a` goes from rule 1 to rule 2 and on to rule 3, which keeps it although
it claims it twice. -/
theorem table_exact_contested :
    Grammar.ofText contestedText = .ok contested ∧
      ∃ g, ofText contestedText ⟨.lastWriteWins, .fixedPoint⟩ = .ok g ∧
        g.toGrammar = contested ∧ ⟨3, 4, 3⟩ ∈ g.table.entries ∧
        g.table.overwritesAt 3 4 = [⟨3, 4, 1, 2⟩, ⟨3, 4, 2, 3⟩] ∧
        (∃ numbers : List Nat, (∀ number, number ∈ numbers ↔ ∃ r ∈ g.rules, r.number = number ∧
            r.lhs = 3 ∧ 4 ∈ r.predict g.first g.follow) ∧
          g.table.overwritesAt 3 4 = Overwrite.chain 3 4 numbers) ∧
        g.table.get? 3 Code.epsilon = none := by
  obtain ⟨g, hg, hgrammar, -, -, hentries, hchains, hepsilon, -⟩ :=
    table_exact ofText_contestedText .fixedPoint
  have hrun : (ofText contestedText ⟨.lastWriteWins, .fixedPoint⟩).map (fun g =>
      (g.table.get? 3 4, g.table.overwritesAt 3 4)) =
        .ok (some 3, [⟨3, 4, 1, 2⟩, ⟨3, 4, 2, 3⟩]) := by
    decide +kernel
  rw [hg] at hrun
  obtain ⟨hget, hlog⟩ := Prod.mk.inj (Except.ok.inj hrun)
  obtain ⟨numbers, -, hnumbers, -, hchain⟩ := hchains 3 4
  exact ⟨ofText_contestedText, g, hg, hgrammar, (hentries ⟨3, 4, 3⟩).mpr hget, hlog,
    ⟨numbers, hnumbers, hchain⟩, hepsilon 3⟩

end CompiledGrammar

end PredictiveFrontend

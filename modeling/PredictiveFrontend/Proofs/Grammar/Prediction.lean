import PredictiveFrontend.Grammar.Compiled
import PredictiveFrontend.Proofs.Grammar.GuardedVisits
import PredictiveFrontend.Proofs.Grammar.WellFormed

/-!
# What the prediction table predicts

Under every policy a predicted rule claimed the entry it is predicted by, since later claims only
replace earlier ones. If conflicts are refused no claim is ever replaced, so every rule is predicted
wherever it made a claim.
-/

namespace PredictiveFrontend

namespace PredictionTable

private theorem find?_insertEntry (e : TableEntry) (entries : List TableEntry)
    (nonterminal lookahead : Code) :
    (insertEntry e entries).find?
        (fun f => f.nonterminal == nonterminal && f.lookahead == lookahead) =
      if e.nonterminal = nonterminal ∧ e.lookahead = lookahead then some e
      else entries.find? fun f => f.nonterminal == nonterminal && f.lookahead == lookahead := by
  induction entries with
  | nil =>
    by_cases he : e.nonterminal = nonterminal ∧ e.lookahead = lookahead
    · simp [insertEntry, he]
    · simp [insertEntry, he]
  | cons f rest ih =>
    rw [insertEntry]
    by_cases hs : e.sameKey f = true
    · have hkey : e.nonterminal = f.nonterminal ∧ e.lookahead = f.lookahead := by
        simpa [TableEntry.sameKey] using hs
      rw [if_pos hs]
      by_cases he : e.nonterminal = nonterminal ∧ e.lookahead = lookahead
      · simp [he]
      · have hf : ¬(f.nonterminal = nonterminal ∧ f.lookahead = lookahead) := by
          rwa [← hkey.1, ← hkey.2]
        simp [he, hf]
    · rw [if_neg hs]
      split
      · by_cases he : e.nonterminal = nonterminal ∧ e.lookahead = lookahead
        · simp [he]
        · simp [he]
      · by_cases hf : f.nonterminal = nonterminal ∧ f.lookahead = lookahead
        · have he : ¬(e.nonterminal = nonterminal ∧ e.lookahead = lookahead) := by
            rintro ⟨rfl, rfl⟩
            simp [TableEntry.sameKey, hf] at hs
          simp [he, hf]
        · simp [hf, ih]

/-- A new entry is found under its own key and hides nothing else. -/
theorem get?_put (t : PredictionTable) (e : TableEntry) (nonterminal lookahead : Code) :
    (t.put e).get? nonterminal lookahead =
      if e.nonterminal = nonterminal ∧ e.lookahead = lookahead then some e.rule
      else t.get? nonterminal lookahead := by
  rw [get?, put, find?_insertEntry]
  split <;> rfl

/-- What is found after many entries is one of them, or was there before. -/
theorem exists_of_get?_foldl_put {t : PredictionTable} {entries : List TableEntry}
    {nonterminal lookahead : Code} {rule : Nat}
    (h : (entries.foldl put t).get? nonterminal lookahead = some rule) :
    ⟨nonterminal, lookahead, rule⟩ ∈ entries ∨ t.get? nonterminal lookahead = some rule := by
  induction entries generalizing t with
  | nil => exact Or.inr h
  | cons e rest ih =>
    rcases ih h with hm | hp
    · exact Or.inl (List.mem_cons_of_mem _ hm)
    · rw [get?_put] at hp
      split at hp
      · next hkey =>
        obtain ⟨rfl, rfl⟩ := hkey
        cases hp
        exact Or.inl (List.mem_cons_self ..)
      · exact Or.inr hp

/-- An entry overwrites nothing only if what its key holds is the same rule. -/
theorem eq_of_overwriteBy?_eq_none {t : PredictionTable} {e : TableEntry}
    (h : t.overwriteBy? e = none) {rule : Nat}
    (hr : t.get? e.nonterminal e.lookahead = some rule) : rule = e.rule := by
  simp only [overwriteBy?, hr, Option.bind_some] at h
  by_cases he : rule = e.rule
  · exact he
  · rw [if_neg he] at h
    cases h

/-- The table if nothing was overwritten, or the first overwrite of its log. -/
def orFirstOverwrite (t : PredictionTable) : Except Overwrite PredictionTable :=
  match t.overwrites with
  | [] => .ok t
  | o :: _ => .error o

theorem orFirstOverwrite_eq_ok {t t' : PredictionTable} :
    t.orFirstOverwrite = .ok t' ↔ t.overwrites = [] ∧ t' = t := by
  cases hlog : t.overwrites with
  | nil => simp [orFirstOverwrite, hlog, eq_comm]
  | cons o later => simp [orFirstOverwrite, hlog]

/-- Insertions only add to the log. -/
theorem exists_overwrites_foldl_put (t : PredictionTable) (entries : List TableEntry) :
    ∃ later, (entries.foldl put t).overwrites = t.overwrites ++ later := by
  induction entries generalizing t with
  | nil => exact ⟨[], (List.append_nil _).symm⟩
  | cons e rest ih =>
    obtain ⟨later, hlater⟩ := ih (t.put e)
    refine ⟨(t.overwriteBy? e).toList ++ later, ?_⟩
    rw [← List.append_assoc]
    exact hlater

/-- Conflicts are refused where the first overwrite would be logged, and nowhere else. -/
theorem putAllOrConflict_eq {t : PredictionTable} (h : t.overwrites = [])
    (entries : List TableEntry) :
    t.putAllOrConflict entries = (entries.foldl put t).orFirstOverwrite := by
  induction entries generalizing t with
  | nil => simp [putAllOrConflict, orFirstOverwrite, h]
  | cons e rest ih =>
    have hlog : (t.put e).overwrites = (t.overwriteBy? e).toList := by
      rw [put, h, List.nil_append]
    rw [putAllOrConflict, List.foldl_cons]
    cases ho : t.overwriteBy? e with
    | none =>
      rw [ho] at hlog
      exact ih hlog
    | some o =>
      obtain ⟨later, hlater⟩ := exists_overwrites_foldl_put (t.put e) rest
      rw [hlog, ho] at hlater
      simp [orFirstOverwrite, hlater]

/-- Without a conflict nothing that was found is lost. -/
theorem get?_of_putAllOrConflict {t t' : PredictionTable} {entries : List TableEntry}
    (h : t.putAllOrConflict entries = .ok t') {nonterminal lookahead : Code} {rule : Nat}
    (hr : t.get? nonterminal lookahead = some rule) :
    t'.get? nonterminal lookahead = some rule := by
  induction entries generalizing t with
  | nil =>
    cases h
    exact hr
  | cons e rest ih =>
    rw [putAllOrConflict] at h
    split at h
    · cases h
    · next ho =>
      refine ih h ?_
      rw [get?_put]
      split
      · next hkey =>
        obtain ⟨rfl, rfl⟩ := hkey
        rw [eq_of_overwriteBy?_eq_none ho hr]
      · exact hr

/-- Without a conflict every entry is found. -/
theorem get?_of_mem_putAllOrConflict {t t' : PredictionTable} {entries : List TableEntry}
    (h : t.putAllOrConflict entries = .ok t') {e : TableEntry} (he : e ∈ entries) :
    t'.get? e.nonterminal e.lookahead = some e.rule := by
  induction entries generalizing t with
  | nil => cases he
  | cons f rest ih =>
    rw [putAllOrConflict] at h
    split at h
    · cases h
    · rcases List.mem_cons.mp he with rfl | he
      · refine get?_of_putAllOrConflict h ?_
        rw [get?_put, if_pos ⟨rfl, rfl⟩]
      · exact ih h he

end PredictionTable

/-! ### Claims -/

namespace Rule

variable {size : Nat} {first follow : SetFamily size} {r : Rule}

/-- A rule is predicted by what its right side begins with, and, if that can vanish, by what follows
its left side. -/
theorem mem_predict {t : Code} :
    t ∈ r.predict first follow ↔ (t ∈ First.ofSequence first r.rhs ∧ t ≠ Code.epsilon) ∨
      (Code.epsilon ∈ First.ofSequence first r.rhs ∧ t ∈ follow.get r.lhs) := by
  rw [predict]
  by_cases he : Code.epsilon ∈ First.ofSequence first r.rhs
  · simp [he]
  · simp only [he, if_false, false_and, or_false]
    refine ⟨fun ht => ⟨ht, ?_⟩, And.left⟩
    rintro rfl
    exact he ht

/-- A rule claims an entry for each terminal that predicts it. -/
theorem mem_claims {e : TableEntry} :
    e ∈ r.claims first follow ↔
      e.nonterminal = r.lhs ∧ e.rule = r.number ∧ e.lookahead ∈ r.predict first follow := by
  have hl : ∀ t, t ∈ ((First.ofSequence first r.rhs).erase Code.epsilon).toList ++
      (if Code.epsilon ∈ First.ofSequence first r.rhs then (follow.get r.lhs).toList else []) ↔
      t ∈ r.predict first follow := by
    intro t
    rw [mem_predict, List.mem_append, CodeSet.mem_toList, CodeSet.mem_erase]
    by_cases he : Code.epsilon ∈ First.ofSequence first r.rhs <;> simp [he]
  rw [claims, List.mem_map]
  constructor
  · rintro ⟨t, ht, rfl⟩
    exact ⟨rfl, rfl, (hl t).mp ht⟩
  · obtain ⟨nonterminal, lookahead, rule⟩ := e
    rintro ⟨rfl, rfl, ht⟩
    exact ⟨lookahead, (hl lookahead).mpr ht, rfl⟩

end Rule

/-- Under every policy a table is made of all claims, one after the other. -/
theorem Grammar.predictionTable_eq_foldl {g : Grammar} {first follow : SetFamily g.alphabet.size}
    {policy : ConflictPolicy} {table : PredictionTable}
    (h : g.predictionTable first follow policy = .ok table) :
    table = (g.claims first follow).foldl PredictionTable.put .empty := by
  cases policy with
  | lastWriteWins =>
    cases h
    rfl
  | reject =>
    rw [predictionTable] at h
    split at h
    · next ht =>
      cases h
      rw [PredictionTable.putAllOrConflict_eq rfl] at ht
      exact (PredictionTable.orFirstOverwrite_eq_ok.mp ht).2
    · cases h

/-- The entries of a compiled table are claims of rules. -/
theorem Grammar.mem_claims_of_predictionTable {g : Grammar}
    {first follow : SetFamily g.alphabet.size} {policy : ConflictPolicy} {table : PredictionTable}
    (h : g.predictionTable first follow policy = .ok table) {nonterminal lookahead : Code}
    {rule : Nat} (hr : table.get? nonterminal lookahead = some rule) :
    ⟨nonterminal, lookahead, rule⟩ ∈ g.claims first follow := by
  rw [predictionTable_eq_foldl h] at hr
  rcases PredictionTable.exists_of_get?_foldl_put hr with hm | he
  · exact hm
  · cases he

/-- If conflicts are refused every claim is met. -/
theorem Grammar.get?_of_mem_claims {g : Grammar} {first follow : SetFamily g.alphabet.size}
    {table : PredictionTable} (h : g.predictionTable first follow .reject = .ok table)
    {e : TableEntry} (he : e ∈ g.claims first follow) :
    table.get? e.nonterminal e.lookahead = some e.rule := by
  rw [predictionTable] at h
  split at h
  · next ht =>
    cases h
    exact PredictionTable.get?_of_mem_putAllOrConflict ht he
  · cases h

/-! ### Compiled grammars -/

namespace CompiledGrammar

/-- What is true of every grammar that is compiled from a text. -/
structure CompiledBy (g : CompiledGrammar) (options : CompileOptions) : Prop where
  /-- It is a well-formed grammar. -/
  wellFormed : g.toGrammar.WellFormed
  /-- Its FIRST sets are those of the grammar. -/
  first_eq : g.first = g.toGrammar.first
  /-- Its FOLLOW sets are those of the grammar. -/
  follow_eq : g.follow = g.toGrammar.follow options.followStrategy g.first
  /-- Its table is built from these sets. -/
  table_eq : g.toGrammar.predictionTable g.first g.follow options.conflictPolicy = .ok g.table

theorem compiledBy_of_ofText {text : String} {options : CompileOptions} {g : CompiledGrammar}
    (h : ofText text options = .ok g) : g.CompiledBy options := by
  simp only [ofText, ofGrammar, bind_eq_ok, map_eq_ok] at h
  obtain ⟨grammar, hg, table, ht, rfl⟩ := h
  exact ⟨Grammar.wellFormed_of_ofText hg, rfl, rfl, ht⟩

/-- Guarded visits that are done in so many steps compile a grammar if its rules do not conflict. -/
theorem exists_ofText_guarded {text : String} {grammar : Grammar}
    (hgrammar : Grammar.ofText text = .ok grammar) (n : Nat)
    (follow : SetFamily grammar.alphabet.size)
    (hfollow : Follow.performWithin grammar.first grammar.occurrences n
      (grammar.alphabet.nonterminals.flatMap (Follow.tasksOf grammar.first grammar.occurrences)) ∅
      (Follow.initial grammar.start) = some follow)
    (htable : (grammar.predictionTable grammar.first follow .reject).map (fun _ => ()) = .ok ()) :
    ∃ table, ofText text ⟨.reject, .guardedRecursion⟩ =
      .ok ⟨grammar, grammar.first, follow, table⟩ := by
  obtain ⟨table, ht, -⟩ := map_eq_ok.mp htable
  have hvisits : grammar.follow .guardedRecursion grammar.first = follow :=
    Follow.perform_eq_of_performWithin hfollow
  refine ⟨table, ?_⟩
  simp only [ofText, ofGrammar, hgrammar, bind, Except.bind, hvisits, ht, Except.map]

namespace CompiledBy

variable {g : CompiledGrammar} {options : CompileOptions}

/-- Under every policy a predicted rule is one for the nonterminal and the lookahead. -/
theorem of_predicted? (h : g.CompiledBy options) {nonterminal lookahead : Code} {r : Rule}
    (hp : g.predicted? nonterminal lookahead = some r) :
    r ∈ g.rules ∧ r.lhs = nonterminal ∧ lookahead ∈ r.predict g.first g.follow := by
  obtain ⟨rule, hget, hrule⟩ := Option.bind_eq_some_iff.mp hp
  have hm := Grammar.mem_claims_of_predictionTable h.table_eq hget
  obtain ⟨r', hr', hclaim⟩ := List.mem_flatMap.mp hm
  obtain ⟨hl, hn, ht⟩ := Rule.mem_claims.mp hclaim
  have he : r' = r := by
    have hnumber := h.wellFormed.rule?_number hr'
    rw [← hn, hrule] at hnumber
    exact (Option.some.inj hnumber).symm
  subst he
  exact ⟨hr', hl.symm, ht⟩

/-- If conflicts are refused a rule is predicted wherever its predict set says so. -/
theorem predicted?_of_mem_predict (h : g.CompiledBy options)
    (hpolicy : options.conflictPolicy = .reject) {r : Rule} (hr : r ∈ g.rules) {t : Code}
    (ht : t ∈ r.predict g.first g.follow) : g.predicted? r.lhs t = some r := by
  have htable := h.table_eq
  rw [hpolicy] at htable
  have hclaim : ⟨r.lhs, t, r.number⟩ ∈ g.toGrammar.claims g.first g.follow :=
    List.mem_flatMap.mpr ⟨r, hr, Rule.mem_claims.mpr ⟨rfl, rfl, ht⟩⟩
  have hget := Grammar.get?_of_mem_claims htable hclaim
  rw [predicted?, hget]
  exact h.wellFormed.rule?_number hr

end CompiledBy

end CompiledGrammar

end PredictiveFrontend

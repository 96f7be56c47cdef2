import PredictiveFrontend.Proofs.Grammar.Follows
import Mathlib.Data.Finset.Prod

/-!
# What guarded visits find

A visit is only done for a pair of visitor and visited that was not seen before, and it sets a few
tasks for every occurrence. There are only so many pairs, so the visits come to an end. They find no
more than the repetition does, since that takes every occurrence into account, and no less than what
the occurrences take by themselves, since nothing that was taken is lost.
-/

namespace PredictiveFrontend

namespace SetFamily

variable {size : Nat}

/-- Adding what is there already changes nothing. -/
theorem add_eq_self {f : SetFamily size} {c : Code} {s : CodeSet size}
    (h : c < f.sets.length → ∀ t ∈ s, t ∈ f.get c) : f.add c s = f := by
  obtain ⟨sets⟩ := f
  refine congrArg SetFamily.mk (List.ext_getElem? fun d => ?_)
  rw [List.getElem?_modify]
  by_cases hd : c = d
  · subst hd
    by_cases hc : c < sets.length
    · have hunion : sets[c] ∪ s = sets[c] := by
        ext t
        have hmem := h hc t
        simp only [get, List.getElem?_eq_getElem hc, Option.getD_some] at hmem
        rw [CodeSet.mem_union]
        exact ⟨fun ht => ht.elim id hmem, Or.inl⟩
      simp [List.getElem?_eq_getElem hc, hunion]
    · simp [List.getElem?_eq_none (Nat.le_of_not_lt hc)]
  · simp [hd]

end SetFamily

namespace Follow

variable {size : Nat} {first : SetFamily size} {occurrences : List Occurrence}

/-! ### The number of tasks -/

/-- Lists of bounded lengths make up one of bounded length. -/
private theorem length_flatMap_le {α β : Type} {f : α → List β} {as : List α} {bound : Nat}
    (h : ∀ a ∈ as, (f a).length ≤ bound) : (as.flatMap f).length ≤ as.length * bound := by
  induction as with
  | nil => simp
  | cons a as ih =>
    obtain ⟨ha, has⟩ := List.forall_mem_cons.mp h
    have hrest := ih has
    rw [List.flatMap_cons, List.length_append, List.length_cons, Nat.add_mul, Nat.one_mul]
    omega

/-- The pairs of visitor and visited that were not seen yet. -/
def unseen (seen : SetFamily size) : Finset (Code × Code) :=
  (Finset.range seen.sets.length ×ˢ Finset.range size).filter fun pair =>
    pair.2 ∉ seen.get pair.1

theorem mem_unseen {seen : SetFamily size} {visitor symbol : Code} :
    (visitor, symbol) ∈ unseen seen ↔
      visitor < seen.sets.length ∧ symbol < size ∧ symbol ∉ seen.get visitor := by
  simp [unseen, and_assoc]

theorem card_unseen_le (seen : SetFamily size) :
    (unseen seen).card ≤ seen.sets.length * size := by
  refine (Finset.card_filter_le _ _).trans ?_
  rw [Finset.card_product, Finset.card_range, Finset.card_range]

/-- A visit that is done leaves fewer pairs. -/
theorem card_unseen_lt {seen : SetFamily size} {visitor symbol : Code}
    (h : seen.add visitor (CodeSet.singleton symbol) ≠ seen) :
    (unseen (seen.add visitor (CodeSet.singleton symbol))).card < (unseen seen).card := by
  -- The pair itself was unseen, or else it would have changed nothing.
  have hpair : visitor < seen.sets.length ∧ symbol < size ∧ symbol ∉ seen.get visitor := by
    by_contra hno
    refine h (SetFamily.add_eq_self fun hvisitor t ht => ?_)
    obtain ⟨rfl, hsize⟩ := CodeSet.mem_singleton.mp ht
    by_contra hmem
    exact hno ⟨hvisitor, hsize, hmem⟩
  refine Finset.card_lt_card (Finset.ssubset_iff_subset_ne.mpr ⟨?_, fun he => ?_⟩)
  · rintro ⟨v, s⟩ hmem
    rw [mem_unseen, SetFamily.length_add] at hmem
    obtain ⟨hv, hs, hnot⟩ := hmem
    refine mem_unseen.mpr ⟨hv, hs, fun hold => hnot ?_⟩
    exact SetFamily.mem_get_add.mpr (Or.inl hold)
  · have hmem : (visitor, symbol) ∈ unseen seen := mem_unseen.mpr hpair
    rw [← he] at hmem
    refine (mem_unseen.mp hmem).2.2 (SetFamily.mem_get_add.mpr (Or.inr ⟨rfl, hpair.1, ?_⟩))
    exact CodeSet.mem_singleton.mpr ⟨rfl, hpair.2.1⟩

theorem length_tasksAt_le (first : SetFamily size) (o : Occurrence) :
    (tasksAt first o).length ≤ 3 := by
  rw [tasksAt]
  split <;> simp

/-- A visit sets three tasks for an occurrence at most. -/
theorem length_tasksOf_le (first : SetFamily size) (occurrences : List Occurrence)
    (symbol : Code) : (tasksOf first occurrences symbol).length ≤ 3 * occurrences.length := by
  have htasks : (tasksOf first occurrences symbol).length ≤
      (occurrences.filter (·.symbol == symbol)).length * 3 :=
    length_flatMap_le fun o _ => length_tasksAt_le first o
  have hfilter := List.length_filter_le (·.symbol == symbol) occurrences
  omega

/-- Tasks are done in no more steps than there are tasks and what the visits of all unseen pairs
would set. -/
theorem performWithin_of_le {n : Nat} {tasks : List (Task size)} {seen follow : SetFamily size}
    (h : (unseen seen).card * (3 * occurrences.length) + tasks.length ≤ n) :
    performWithin first occurrences n tasks seen follow =
      some (perform first occurrences tasks seen follow) := by
  revert n
  fun_induction perform first occurrences tasks seen follow with
  | case1 seen follow =>
    intro n _
    rw [performWithin]
  | case2 seen follow symbol terminals rest ih =>
    intro n h
    rw [List.length_cons] at h
    obtain ⟨n, rfl⟩ : ∃ m, n = m + 1 := ⟨n - 1, by omega⟩
    rw [performWithin]
    exact ih (by omega)
  | case3 seen follow symbol owner rest ih =>
    intro n h
    rw [List.length_cons] at h
    obtain ⟨n, rfl⟩ : ∃ m, n = m + 1 := ⟨n - 1, by omega⟩
    rw [performWithin]
    exact ih (by omega)
  | case4 seen follow visitor symbol rest seen' hseen =>
    rename_i ih
    intro n h
    rw [List.length_cons] at h
    obtain ⟨n, rfl⟩ : ∃ m, n = m + 1 := ⟨n - 1, by omega⟩
    rw [performWithin, if_pos hseen]
    exact ih (by omega)
  | case5 seen follow visitor symbol rest seen' hseen =>
    rename_i ih
    intro n h
    rw [List.length_cons] at h
    obtain ⟨n, rfl⟩ : ∃ m, n = m + 1 := ⟨n - 1, by omega⟩
    rw [performWithin, if_neg hseen]
    refine ih ?_
    have hpairs : (unseen seen').card + 1 ≤ (unseen seen).card := card_unseen_lt hseen
    have htasks := length_tasksOf_le first occurrences symbol
    have hbudget := Nat.mul_le_mul_right (3 * occurrences.length) hpairs
    rw [Nat.add_mul, Nat.one_mul] at hbudget
    rw [List.length_append]
    omega

/-! ### What is taken stays -/

/-- Whatever tasks are done, no terminal is lost. -/
theorem mem_perform_of_mem {tasks : List (Task size)} {seen follow : SetFamily size} {c t : Code}
    (h : t ∈ follow.get c) : t ∈ (perform first occurrences tasks seen follow).get c := by
  fun_induction perform first occurrences tasks seen follow with
  | case1 => exact h
  | case2 seen follow symbol terminals rest ih => exact ih (SetFamily.mem_get_add.mpr (Or.inl h))
  | case3 seen follow symbol owner rest ih => exact ih (SetFamily.mem_get_add.mpr (Or.inl h))
  | case4 seen follow visitor symbol rest seen' hseen ih => exact ih h
  | case5 seen follow visitor symbol rest seen' hseen ih => exact ih h

/-- Terminals that a task says to take are taken. -/
theorem mem_perform_of_take {tasks : List (Task size)} {seen follow : SetFamily size}
    {symbol t : Code} {terminals : CodeSet size} (htask : .take symbol terminals ∈ tasks)
    (hsymbol : symbol < follow.sets.length) (ht : t ∈ terminals) :
    t ∈ (perform first occurrences tasks seen follow).get symbol := by
  fun_induction perform first occurrences tasks seen follow with
  | case1 => cases htask
  | case2 seen follow symbol' terminals' rest ih =>
    rcases List.mem_cons.mp htask with he | htask
    · cases he
      exact mem_perform_of_mem (SetFamily.mem_get_add.mpr (Or.inr ⟨rfl, hsymbol, ht⟩))
    · exact ih htask (by rwa [SetFamily.length_add])
  | case3 seen follow symbol' owner rest ih =>
    rcases List.mem_cons.mp htask with he | htask
    · cases he
    · exact ih htask (by rwa [SetFamily.length_add])
  | case4 seen follow visitor symbol' rest seen' hseen ih =>
    rcases List.mem_cons.mp htask with he | htask
    · cases he
    · exact ih htask hsymbol
  | case5 seen follow visitor symbol' rest seen' hseen ih =>
    rcases List.mem_cons.mp htask with he | htask
    · cases he
    · exact ih (List.mem_append_right _ htask) hsymbol

end Follow

namespace Grammar

/-- A bound on the tasks of all guarded visits: every pair of visitor and visited, and every
nonterminal once more, with three tasks for an occurrence. -/
def visitLimit (g : Grammar) : Nat :=
  (g.alphabet.size * g.alphabet.size + g.alphabet.size) * (3 * g.occurrences.length)

/-- The guarded visits of all nonterminals come to an end within the limit. -/
theorem performWithin_visitLimit (g : Grammar) (first : SetFamily g.alphabet.size) :
    Follow.performWithin first g.occurrences g.visitLimit
      (g.alphabet.nonterminals.flatMap (Follow.tasksOf first g.occurrences)) ∅
      (Follow.initial g.start) = some (g.follow .guardedRecursion first) := by
  refine Follow.performWithin_of_le ?_
  have hpairs := Follow.card_unseen_le (∅ : SetFamily g.alphabet.size)
  have hlength : (∅ : SetFamily g.alphabet.size).sets.length = g.alphabet.size :=
    SetFamily.length_ofFn _
  rw [hlength] at hpairs
  have hnonterminals : g.alphabet.nonterminals.length ≤ g.alphabet.size := by
    refine (List.length_filter_le _ _).trans ?_
    simp [Alphabet.codes]
  have htasks : (g.alphabet.nonterminals.flatMap
      (Follow.tasksOf first g.occurrences)).length ≤
      g.alphabet.nonterminals.length * (3 * g.occurrences.length) :=
    Follow.length_flatMap_le fun c _ => Follow.length_tasksOf_le first g.occurrences c
  rw [visitLimit, Nat.add_mul]
  exact Nat.add_le_add (Nat.mul_le_mul_right _ hpairs)
    (htasks.trans (Nat.mul_le_mul_right _ hnonterminals))

/-- The guarded visits find what begins the rest behind every occurrence. -/
theorem mem_followGuarded_of_direct {g : Grammar} {first : SetFamily g.alphabet.size}
    {o : Occurrence} (ho : o ∈ g.occurrences) {t : Code}
    (ht : t ∈ First.ofSequence first o.rest) (hne : t ≠ Code.epsilon) :
    t ∈ (g.followGuarded first).get o.symbol := by
  have hnonterminal := (mem_occurrences.mp ho).1
  have hlt := Alphabet.lt_size_of_isNonterminal hnonterminal
  have hlength : (Follow.initial g.start : SetFamily g.alphabet.size).sets.length =
      g.alphabet.size := by
    rw [Follow.initial, SetFamily.length_add]
    exact SetFamily.length_ofFn _
  have hvisited : o.symbol ∈ g.alphabet.nonterminals :=
    List.mem_filter.mpr ⟨List.mem_range.mpr hlt, hnonterminal⟩
  have htask : .take o.symbol (Follow.direct first o) ∈
      Follow.tasksOf first g.occurrences o.symbol := by
    refine List.mem_flatMap.mpr ⟨o, List.mem_filter.mpr ⟨ho, by simp⟩, ?_⟩
    exact List.mem_cons_self ..
  exact Follow.mem_perform_of_take (List.mem_flatMap.mpr ⟨o.symbol, hvisited, htask⟩)
    (by rwa [hlength]) (CodeSet.mem_erase.mpr ⟨ht, hne⟩)

/-- For every grammar text that is read, a guarded visit of a nonterminal comes to an end whatever
was seen before, and the visits of all nonterminals do so within a limit. The FOLLOW set that they
find lies within that by repetition; it holds the end of input if the nonterminal is the start
symbol, and all that begins the rest behind the nonterminal in a rule. -/
theorem guarded_follow_bounds {text : String} {g : Grammar} (h : Grammar.ofText text = .ok g) :
    (∀ c seen follow, ∃ n, Follow.performWithin g.first g.occurrences n
        (Follow.tasksOf g.first g.occurrences c) seen follow =
      some (Follow.perform g.first g.occurrences (Follow.tasksOf g.first g.occurrences c) seen
        follow)) ∧
    Follow.performWithin g.first g.occurrences g.visitLimit
      (g.alphabet.nonterminals.flatMap (Follow.tasksOf g.first g.occurrences)) ∅
      (Follow.initial g.start) = some (g.follow .guardedRecursion g.first) ∧
    ∀ c, g.alphabet.isNonterminal c = true →
      (∀ t ∈ (g.follow .guardedRecursion g.first).get c,
        t ∈ (g.follow .fixedPoint g.first).get c) ∧
      (c = g.start → Code.endOfInput ∈ (g.follow .guardedRecursion g.first).get c) ∧
      ∀ r ∈ g.rules, ∀ before rest, r.rhs = before ++ c :: rest →
        ∀ t ∈ First.ofSequence g.first rest, t ≠ Code.epsilon →
          t ∈ (g.follow .guardedRecursion g.first).get c := by
  have wf := wellFormed_of_ofText h
  refine ⟨fun c seen follow => ⟨_, Follow.performWithin_of_le (Nat.le_refl _)⟩,
    performWithin_visitLimit g g.first, fun c hc => ⟨fun t ht => ?_, ?_, ?_⟩⟩
  · exact Follow.mem_followFixedPoint_of_mem_follow wf .guardedRecursion ht
  · rintro rfl
    refine Follow.mem_perform_of_mem (Follow.mem_initial.mpr ⟨rfl, ?_, rfl, wf.endOfInput_lt⟩)
    exact Alphabet.lt_size_of_isNonterminal hc
  · intro r hr before rest hrhs t ht hne
    have ho : (⟨c, rest, r.lhs⟩ : Occurrence) ∈ g.occurrences :=
      mem_occurrences.mpr ⟨hc, r, hr, rfl, before, hrhs⟩
    exact mem_followGuarded_of_direct ho ht hne

/-- Nonterminals that inherit in circles: what follows `S` follows `C`, `A` and `B` in turn. -/
def latecomerText : String :=
  "S -> b A B | b\nA -> S b C | C c\nB -> a a A\nC -> b S"

/-- The grammar of that text; `A` has code 4, `c` code 7 and `a` code 8. -/
def latecomer : Grammar where
  alphabet := ⟨["EPSILON", "$", "S", "b", "A", "B", "C", "c", "a"]⟩
  rules := [⟨0, 2, [3, 4, 5]⟩, ⟨1, 2, [3]⟩, ⟨2, 4, [2, 3, 6]⟩, ⟨3, 4, [6, 7]⟩, ⟨4, 5, [8, 8, 4]⟩,
    ⟨5, 6, [3, 2]⟩]
  start := 2

/-- Behind `A` the visits find `a`, with which `B` begins; `c` is known behind `B` only after `A`
has inherited from it. -/
theorem guarded_follow_bounds_latecomer :
    Grammar.ofText latecomerText = .ok latecomer ∧
      Follow.performWithin latecomer.first latecomer.occurrences latecomer.visitLimit
        (latecomer.alphabet.nonterminals.flatMap
          (Follow.tasksOf latecomer.first latecomer.occurrences)) ∅
        (Follow.initial latecomer.start) =
          some (latecomer.follow .guardedRecursion latecomer.first) ∧
      Code.endOfInput ∈ (latecomer.follow .guardedRecursion latecomer.first).get 2 ∧
      8 ∈ (latecomer.follow .guardedRecursion latecomer.first).get 4 ∧
      8 ∈ (latecomer.follow .fixedPoint latecomer.first).get 4 ∧
      7 ∉ (latecomer.follow .guardedRecursion latecomer.first).get 4 ∧
      7 ∈ (latecomer.follow .fixedPoint latecomer.first).get 4 := by
  have h : Grammar.ofText latecomerText = .ok latecomer := by decide +kernel
  have hmissed : (Follow.performWithin latecomer.first latecomer.occurrences latecomer.visitLimit
      (latecomer.alphabet.nonterminals.flatMap
        (Follow.tasksOf latecomer.first latecomer.occurrences)) ∅
      (Follow.initial latecomer.start)).map (fun follow => decide (7 ∈ follow.get 4)) =
        some false := by
    decide +kernel
  obtain ⟨-, hvisits, hbounds⟩ := guarded_follow_bounds h
  obtain ⟨-, hstart, -⟩ := hbounds 2 (by decide)
  obtain ⟨hfixed, -, hdirect⟩ := hbounds 4 (by decide)
  have ha := hdirect ⟨0, 2, [3, 4, 5]⟩ (by decide) [3] [5] rfl 8 (by decide +kernel) (by decide)
  rw [hvisits] at hmissed
  refine ⟨h, hvisits, hstart rfl, ha, hfixed 8 ha, ?_, by decide +kernel⟩
  exact of_decide_eq_false (Option.some.inj hmissed)

end Grammar

end PredictiveFrontend

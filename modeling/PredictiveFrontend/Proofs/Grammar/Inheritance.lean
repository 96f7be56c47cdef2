import PredictiveFrontend.Proofs.Grammar.Follows

/-!
# Inheritance without circles

A guarded visit is skipped if its pair of visitor and visited was seen before. If no nonterminals
inherit from each other in a circle, nothing is lost by this: the earlier visit of the pair is not
underway any more, since the visitor would have to inherit from itself by way of the visited, and
what a visit leaves behind is complete. A nonterminal that inherits from itself alone is no circle
here, because all that it could take is its own.
-/

namespace PredictiveFrontend

/-- A nonterminal inherits from another one if it stands on the right side of one of its rules, in
front of a rest that derives the empty word. -/
def Grammar.InheritsFrom (g : Grammar) (c owner : Code) : Prop :=
  c ≠ owner ∧ g.alphabet.isNonterminal c = true ∧ ∃ r ∈ g.rules, r.lhs = owner ∧
    ∃ before rest, r.rhs = before ++ c :: rest ∧ g.Derives (Grammar.sententialForm rest) []

namespace Follow

/-! ### What arrives at a symbol -/

/-- A terminal arrives at a symbol if an occurrence takes it, or if it arrives at the owner of an
occurrence that inherits. The end of input arrives at the start symbol. -/
inductive Arrives (g : Grammar) (first : SetFamily g.alphabet.size) : Code → Code → Prop where
  | start : Arrives g first g.start Code.endOfInput
  | direct (o : Occurrence) (ho : o ∈ g.occurrences) (t : Code) (ht : t ∈ direct first o) :
    Arrives g first o.symbol t
  | inherit (o : Occurrence) (ho : o ∈ g.occurrences) (hi : inherits first o = true) (t : Code)
    (ht : Arrives g first o.owner t) : Arrives g first o.symbol t

variable {g : Grammar} {first : SetFamily g.alphabet.size}

/-- What the repetition finds arrives. -/
theorem arrives_of_mem_followFixedPoint {c t : Code} (h : t ∈ (g.followFixedPoint first).get c) :
    Arrives g first c t := by
  refine saturate_foldl_induction (P := fun follow : SetFamily g.alphabet.size =>
    ∀ c t, t ∈ follow.get c → Arrives g first c t) _ (fun o ho follow hfollow c t ht => ?_)
    (fun c t ht => ?_) c t h
  · rcases mem_applyOccurrence.mp ht with ht | ⟨rfl, -, hdirect | ⟨he, ht⟩⟩
    · exact hfollow c t ht
    · exact .direct o ho t (CodeSet.mem_erase.mpr hdirect)
    · exact .inherit o ho (decide_eq_true he) t (hfollow o.owner t ht)
  · obtain ⟨rfl, -, rfl, -⟩ := mem_initial.mp ht
    exact .start

/-- The set of a symbol holds all that arrives at it. -/
def Complete (g : Grammar) (first follow : SetFamily g.alphabet.size) (c : Code) : Prop :=
  ∀ t, Arrives g first c t → t ∈ follow.get c

theorem Complete.mono {follow follow' : SetFamily g.alphabet.size} {c : Code}
    (h : Complete g first follow c) (hle : ∀ c t, t ∈ follow.get c → t ∈ follow'.get c) :
    Complete g first follow' c :=
  fun t ht => hle c t (h t ht)

/-- An occurrence has been taken into account, but for what its symbol inherits from itself. -/
def Taken (g : Grammar) (first follow : SetFamily g.alphabet.size) (o : Occurrence) : Prop :=
  (∀ t ∈ direct first o, t ∈ follow.get o.symbol) ∧
    (inherits first o = true → o.owner ≠ o.symbol →
      ∀ t, Arrives g first o.owner t → t ∈ follow.get o.symbol)

theorem Taken.mono {follow follow' : SetFamily g.alphabet.size} {o : Occurrence}
    (h : Taken g first follow o) (hle : ∀ c t, t ∈ follow.get c → t ∈ follow'.get c) :
    Taken g first follow' o :=
  ⟨fun t ht => hle _ t (h.1 t ht), fun hi hne t ht => hle _ t (h.2 hi hne t ht)⟩

/-- With all its occurrences taken into account a symbol has all that arrives at it; by inheriting
from itself it would get nothing new. -/
theorem complete_of_taken {follow : SetFamily g.alphabet.size} {c : Code}
    (hstart : Code.endOfInput ∈ follow.get g.start)
    (h : ∀ o ∈ g.occurrences, o.symbol = c → Taken g first follow o) :
    Complete g first follow c := by
  have harrives : ∀ d t, Arrives g first d t → d = c → t ∈ follow.get d := by
    intro d t ht
    induction ht with
    | start =>
      intro _
      exact hstart
    | direct o ho t ht =>
      intro hc
      exact (h o ho hc).1 t ht
    | inherit o ho hi t ht ih =>
      intro hc
      by_cases hself : o.owner = o.symbol
      · have hown := ih (hself.trans hc)
        rwa [hself] at hown
      · exact (h o ho hc).2 hi hself t ht
  exact fun t ht => harrives c t ht rfl

/-! ### Visits as a whole -/

/-- What the visits have seen and found so far. -/
structure Walk (size : Nat) where
  seen : SetFamily size
  follow : SetFamily size

/-- Doing some tasks first, ahead of whatever is left to do, leads from one state of the walk to
another. -/
def Leads {size : Nat} (first : SetFamily size) (occurrences : List Occurrence)
    (tasks : List (Task size)) (w w' : Walk size) : Prop :=
  ∀ rest, perform first occurrences (tasks ++ rest) w.seen w.follow =
    perform first occurrences rest w'.seen w'.follow

namespace Leads

variable {size : Nat} {first : SetFamily size} {occurrences : List Occurrence}
  {tasks tasks' : List (Task size)} {w w' w'' : Walk size}

theorem nil (w : Walk size) : Leads first occurrences [] w w := fun _ => rfl

theorem append (h : Leads first occurrences tasks w w')
    (h' : Leads first occurrences tasks' w' w'') :
    Leads first occurrences (tasks ++ tasks') w w'' := by
  intro rest
  rw [List.append_assoc, h, h']

theorem take (symbol : Code) (terminals : CodeSet size) (w : Walk size) :
    Leads first occurrences [.take symbol terminals] w
      ⟨w.seen, w.follow.add symbol terminals⟩ := by
  intro rest
  rw [List.singleton_append, perform]

theorem inherit (symbol owner : Code) (w : Walk size) :
    Leads first occurrences [.inherit symbol owner] w
      ⟨w.seen, w.follow.add symbol (w.follow.get owner)⟩ := by
  intro rest
  rw [List.singleton_append, perform]

/-- A pair that was seen before is not visited again. -/
theorem visit_of_seen {visitor symbol : Code}
    (h : w.seen.add visitor (CodeSet.singleton symbol) = w.seen) :
    Leads first occurrences [.visit visitor symbol] w w := by
  intro rest
  rw [List.singleton_append, perform, if_pos h]

/-- A new pair is visited at once. -/
theorem visit {visitor symbol : Code}
    (h : w.seen.add visitor (CodeSet.singleton symbol) ≠ w.seen)
    (h' : Leads first occurrences (tasksOf first occurrences symbol)
      ⟨w.seen.add visitor (CodeSet.singleton symbol), w.follow⟩ w') :
    Leads first occurrences [.visit visitor symbol] w w' := by
  intro rest
  rw [List.singleton_append, perform, if_neg h]
  exact h' rest

end Leads

/-- Before a symbol is visited: the visits seen of what it inherits from, by whatever chain, have
left complete sets behind. -/
structure Ready (g : Grammar) (first : SetFamily g.alphabet.size) (c : Code)
    (w : Walk g.alphabet.size) : Prop where
  complete : ∀ visitor symbol, Relation.ReflTransGen g.InheritsFrom c visitor →
    symbol ∈ w.seen.get visitor → symbol ≠ visitor → Complete g first w.follow symbol
  start : Code.endOfInput ∈ w.follow.get g.start
  length_follow : w.follow.sets.length = g.alphabet.size
  length_seen : w.seen.sets.length = g.alphabet.size

/-- What tasks for a symbol do to the walk: nothing is lost, and the visits that are new to it are
those of what the symbol inherits from, with complete sets left behind. -/
structure Serves (g : Grammar) (first : SetFamily g.alphabet.size) (c : Code)
    (w w' : Walk g.alphabet.size) : Prop where
  mono : ∀ d t, t ∈ w.follow.get d → t ∈ w'.follow.get d
  seen : ∀ visitor symbol, symbol ∈ w'.seen.get visitor → symbol ∈ w.seen.get visitor ∨
    (Relation.ReflTransGen g.InheritsFrom c visitor ∧
      (symbol ≠ visitor → Complete g first w'.follow symbol))
  rank_le : w'.seen.rank ≤ w.seen.rank
  length_follow : w'.follow.sets.length = w.follow.sets.length
  length_seen : w'.seen.sets.length = w.seen.sets.length

namespace Serves

variable {c : Code} {w w' w'' : Walk g.alphabet.size}

theorem refl (c : Code) (w : Walk g.alphabet.size) : Serves g first c w w where
  mono _ _ h := h
  seen _ _ h := Or.inl h
  rank_le := Nat.le_refl _
  length_follow := rfl
  length_seen := rfl

theorem trans (h : Serves g first c w w') (h' : Serves g first c w' w'') :
    Serves g first c w w'' where
  mono d t ht := h'.mono d t (h.mono d t ht)
  seen visitor symbol hs := by
    rcases h'.seen visitor symbol hs with hs | hnew
    · rcases h.seen visitor symbol hs with hs | ⟨hchain, hcomplete⟩
      · exact Or.inl hs
      · exact Or.inr ⟨hchain, fun hne => (hcomplete hne).mono h'.mono⟩
    · exact Or.inr hnew
  rank_le := Nat.le_trans h'.rank_le h.rank_le
  length_follow := h'.length_follow.trans h.length_follow
  length_seen := h'.length_seen.trans h.length_seen

/-- Adding to a set serves any symbol. -/
theorem add (c symbol : Code) (terminals : CodeSet g.alphabet.size)
    (w : Walk g.alphabet.size) :
    Serves g first c w ⟨w.seen, w.follow.add symbol terminals⟩ where
  mono _ _ h := SetFamily.mem_get_add.mpr (Or.inl h)
  seen _ _ h := Or.inl h
  rank_le := Nat.le_refl _
  length_follow := SetFamily.length_add _ _ _
  length_seen := rfl

/-- A symbol stays ready while it is served. -/
theorem ready (h : Serves g first c w w') (hready : Ready g first c w) : Ready g first c w' where
  complete visitor symbol hchain hs hne := by
    rcases h.seen visitor symbol hs with hs | ⟨-, hcomplete⟩
    · exact (hready.complete visitor symbol hchain hs hne).mono h.mono
    · exact hcomplete hne
  start := h.mono _ _ hready.start
  length_follow := h.length_follow.trans hready.length_follow
  length_seen := h.length_seen.trans hready.length_seen

end Serves

/-! ### Visits without circles -/

/-- The symbol of an occurrence that inherits does so from the owner, if that is another one. -/
theorem inheritsFrom_of_inherits (hfirst : First.Sound g first) {o : Occurrence}
    (ho : o ∈ g.occurrences) (hi : inherits first o = true) (hne : o.owner ≠ o.symbol) :
    g.InheritsFrom o.symbol o.owner := by
  obtain ⟨hsymbol, r, hr, howner, before, hrhs⟩ := Grammar.mem_occurrences.mp ho
  exact ⟨hne.symm, hsymbol, r, hr, howner.symm, before, o.rest, hrhs,
    hfirst.derives_nil (of_decide_eq_true hi)⟩

theorem reflTransGen_of_inherits (hfirst : First.Sound g first) {o : Occurrence}
    (ho : o ∈ g.occurrences) (hi : inherits first o = true) :
    Relation.ReflTransGen g.InheritsFrom o.symbol o.owner := by
  by_cases hself : o.owner = o.symbol
  · rw [hself]
  · exact .single (inheritsFrom_of_inherits hfirst ho hi hself)

section Acyclic

variable (wf : g.WellFormed) (hfirst : First.Sound g first)
  (hacyclic : ∀ c, ¬Relation.TransGen g.InheritsFrom c c)

include hfirst hacyclic in
/-- A visitor that is about to make a new visit leaves the visited ready: it is not among those that
the visited inherits from. -/
theorem Ready.visit {o : Occurrence} (ho : o ∈ g.occurrences) (hi : inherits first o = true)
    {w : Walk g.alphabet.size} (h : Ready g first o.symbol w) :
    Ready g first o.owner
      ⟨w.seen.add o.symbol (CodeSet.singleton o.owner), w.follow⟩ where
  complete visitor symbol hchain hs hne := by
    rcases SetFamily.mem_get_add.mp hs with hs | ⟨rfl, -, hs⟩
    · have hreaches := reflTransGen_of_inherits hfirst ho hi
      exact h.complete visitor symbol (hreaches.trans hchain) hs hne
    · obtain ⟨rfl, -⟩ := CodeSet.mem_singleton.mp hs
      have hcircle := Relation.TransGen.head' (inheritsFrom_of_inherits hfirst ho hi hne) hchain
      exact absurd hcircle (hacyclic o.symbol)
  start := h.start
  length_follow := h.length_follow
  length_seen := (SetFamily.length_add _ _ _).trans h.length_seen

include wf in
/-- A visit is skipped only if its pair was seen. -/
theorem Ready.mem_seen {o : Occurrence} (ho : o ∈ g.occurrences) {w : Walk g.alphabet.size}
    (h : Ready g first o.symbol w)
    (hskip : w.seen.add o.symbol (CodeSet.singleton o.owner) = w.seen) :
    o.owner ∈ w.seen.get o.symbol := by
  obtain ⟨hsymbol, r, hr, howner, -⟩ := Grammar.mem_occurrences.mp ho
  refine SetFamily.subset_of_add_eq hskip ?_ (CodeSet.mem_singleton.mpr ⟨rfl, ?_⟩)
  · rw [h.length_seen]
    exact Alphabet.lt_size_of_isNonterminal hsymbol
  · rw [howner]
    exact Alphabet.lt_size_of_isNonterminal (wf.lhs_nonterminal r hr)

/-- The tasks of a visit serve its symbol and leave its set complete. -/
def Completes (g : Grammar) (first : SetFamily g.alphabet.size) (c : Code)
    (w : Walk g.alphabet.size) : Prop :=
  ∃ w', Leads first g.occurrences (tasksOf first g.occurrences c) w w' ∧
    Serves g first c w w' ∧ Complete g first w'.follow c

section Visit

variable {n : Nat} (ih : ∀ c w, w.seen.rank < n → Ready g first c w → Completes g first c w)
include wf hfirst hacyclic ih

/-- A visit on behalf of an occurrence leaves the set of another owner complete, whether the visit
is done or skipped. -/
theorem exists_leads_visit {o : Occurrence} (ho : o ∈ g.occurrences)
    (hi : inherits first o = true) {w : Walk g.alphabet.size} (hrank : w.seen.rank ≤ n)
    (h : Ready g first o.symbol w) :
    ∃ w', Leads first g.occurrences [.visit o.symbol o.owner] w w' ∧
      Serves g first o.symbol w w' ∧
      (o.owner ≠ o.symbol → Complete g first w'.follow o.owner) := by
  by_cases hskip : w.seen.add o.symbol (CodeSet.singleton o.owner) = w.seen
  · refine ⟨w, .visit_of_seen hskip, .refl _ _, fun hne => ?_⟩
    exact h.complete o.symbol o.owner .refl (h.mem_seen wf ho hskip) hne
  · have hlt : (w.seen.add o.symbol (CodeSet.singleton o.owner)).rank < w.seen.rank :=
      (SetFamily.add_eq_or_rank_lt _ _ _).resolve_left hskip
    obtain ⟨w', hleads, hserves, hcomplete⟩ :=
      ih o.owner ⟨w.seen.add o.symbol (CodeSet.singleton o.owner), w.follow⟩
        (Nat.lt_of_lt_of_le hlt hrank) (h.visit hfirst hacyclic ho hi)
    refine ⟨w', .visit hskip hleads, ?_, fun _ => hcomplete⟩
    constructor
    case mono => exact hserves.mono
    case rank_le => exact Nat.le_trans hserves.rank_le (Nat.le_of_lt hlt)
    case length_follow => exact hserves.length_follow
    case length_seen => exact hserves.length_seen.trans (SetFamily.length_add _ _ _)
    case seen =>
      intro visitor symbol hs
      rcases hserves.seen visitor symbol hs with hs | ⟨hchain, hnew⟩
      · rcases SetFamily.mem_get_add.mp hs with hs | ⟨rfl, -, hs⟩
        · exact Or.inl hs
        · obtain ⟨rfl, -⟩ := CodeSet.mem_singleton.mp hs
          exact Or.inr ⟨.refl, fun _ => hcomplete⟩
      · exact Or.inr ⟨(reflTransGen_of_inherits hfirst ho hi).trans hchain, hnew⟩

/-- The tasks at an occurrence take it into account. -/
theorem exists_leads_tasksAt {o : Occurrence} (ho : o ∈ g.occurrences)
    {w : Walk g.alphabet.size} (hrank : w.seen.rank ≤ n) (h : Ready g first o.symbol w) :
    ∃ w', Leads first g.occurrences (tasksAt first o) w w' ∧ Serves g first o.symbol w w' ∧
      Taken g first w'.follow o := by
  have hlt := Alphabet.lt_size_of_isNonterminal (Grammar.mem_occurrences.mp ho).1
  -- First the symbol takes what the rest behind it begins with.
  have htake : Leads first g.occurrences [.take o.symbol (direct first o)] w
      ⟨w.seen, w.follow.add o.symbol (direct first o)⟩ := .take _ _ _
  have hserves : Serves g first o.symbol w ⟨w.seen, w.follow.add o.symbol (direct first o)⟩ :=
    .add _ _ _ _
  have hdirect : ∀ t ∈ direct first o,
      t ∈ (w.follow.add o.symbol (direct first o)).get o.symbol := by
    intro t ht
    refine SetFamily.mem_get_add.mpr (Or.inr ⟨rfl, ?_, ht⟩)
    rwa [h.length_follow]
  by_cases hi : inherits first o = true
  · -- Then it visits the owner and takes what this visit has left behind.
    have hbefore := hserves.ready h
    obtain ⟨w', hvisit, hserves', hcomplete⟩ :=
      exists_leads_visit wf hfirst hacyclic ih ho hi (Nat.le_trans hserves.rank_le hrank) hbefore
    have hafter := hserves'.ready hbefore
    have hlast : Serves g first o.symbol w'
        ⟨w'.seen, w'.follow.add o.symbol (w'.follow.get o.owner)⟩ := .add _ _ _ _
    refine ⟨_, ?_, (hserves.trans hserves').trans hlast, fun t ht => ?_, fun _ hne t ht => ?_⟩
    · rw [tasksAt, if_pos hi]
      exact htake.append (hvisit.append (.inherit _ _ _))
    · exact hlast.mono _ t (hserves'.mono _ t (hdirect t ht))
    · refine SetFamily.mem_get_add.mpr (Or.inr ⟨rfl, ?_, hcomplete hne t ht⟩)
      rwa [hafter.length_follow]
  · refine ⟨_, ?_, hserves, hdirect, fun hi' => absurd hi' hi⟩
    rw [tasksAt, if_neg hi]
    exact htake

/-- The tasks at several occurrences of a symbol take all of them into account. -/
theorem exists_leads_flatMap {c : Code} (os : List Occurrence)
    (hos : ∀ o ∈ os, o ∈ g.occurrences ∧ o.symbol = c) {w : Walk g.alphabet.size}
    (hrank : w.seen.rank ≤ n) (h : Ready g first c w) :
    ∃ w', Leads first g.occurrences (os.flatMap (tasksAt first)) w w' ∧
      Serves g first c w w' ∧ ∀ o ∈ os, Taken g first w'.follow o := by
  induction os generalizing w with
  | nil => exact ⟨w, .nil w, .refl c w, by simp⟩
  | cons o os ihOs =>
    obtain ⟨⟨ho, rfl⟩, hos⟩ := List.forall_mem_cons.mp hos
    obtain ⟨w', hleads, hserves, htaken⟩ :=
      exists_leads_tasksAt wf hfirst hacyclic ih ho hrank h
    obtain ⟨w'', hleads', hserves', htaken'⟩ :=
      ihOs hos (Nat.le_trans hserves.rank_le hrank) (hserves.ready h)
    refine ⟨w'', ?_, hserves.trans hserves', ?_⟩
    · rw [List.flatMap_cons]
      exact hleads.append hleads'
    · exact List.forall_mem_cons.mpr ⟨htaken.mono hserves'.mono, htaken'⟩

end Visit

include wf hfirst hacyclic

/-- A visit leaves the set of its symbol complete. -/
theorem completes_of_ready (c : Code) (w : Walk g.alphabet.size) (h : Ready g first c w) :
    Completes g first c w := by
  -- A visit that is done inside another one has seen a pair more.
  induction hn : w.seen.rank using Nat.strongRecOn generalizing c w with
  | _ n ih =>
    obtain ⟨w', hleads, hserves, htaken⟩ :=
      exists_leads_flatMap wf hfirst hacyclic
        (fun c w hlt hready => ih w.seen.rank hlt c w hready rfl)
        (g.occurrences.filter (·.symbol == c)) (fun o ho => by simpa using List.mem_filter.mp ho)
        (Nat.le_of_eq hn) h
    refine ⟨w', hleads, hserves, complete_of_taken (hserves.ready h).start fun o ho hc => ?_⟩
    exact htaken o (List.mem_filter.mpr ⟨ho, by simpa using hc⟩)

/-- The visits of several nonterminals, one after the other, leave the sets of all of them
complete. -/
theorem exists_leads_nonterminals (cs : List Code) (w : Walk g.alphabet.size)
    (h : ∀ c, Ready g first c w) :
    ∃ w', Leads first g.occurrences (cs.flatMap (tasksOf first g.occurrences)) w w' ∧
      (∀ d t, t ∈ w.follow.get d → t ∈ w'.follow.get d) ∧
      ∀ c ∈ cs, Complete g first w'.follow c := by
  induction cs generalizing w with
  | nil => exact ⟨w, .nil w, fun _ _ ht => ht, by simp⟩
  | cons c cs ih =>
    obtain ⟨w', hleads, hserves, hcomplete⟩ :=
      completes_of_ready wf hfirst hacyclic c w (h c)
    have hready : ∀ d, Ready g first d w' := by
      intro d
      refine ⟨fun visitor symbol hchain hs hne => ?_, (hserves.ready (h c)).start,
        (hserves.ready (h c)).length_follow, (hserves.ready (h c)).length_seen⟩
      rcases hserves.seen visitor symbol hs with hs | ⟨-, hnew⟩
      · exact ((h d).complete visitor symbol hchain hs hne).mono hserves.mono
      · exact hnew hne
    obtain ⟨w'', hleads', hmono, hcomplete'⟩ := ih w' hready
    refine ⟨w'', ?_, fun d t ht => hmono d t (hserves.mono d t ht), ?_⟩
    · rw [List.flatMap_cons]
      exact hleads.append hleads'
    · exact List.forall_mem_cons.mpr ⟨hcomplete.mono hmono, hcomplete'⟩

/-- Without circles guarded visits find everything that arrives. -/
theorem complete_followGuarded {c : Code} (hc : g.alphabet.isNonterminal c = true) :
    Complete g first (g.followGuarded first) c := by
  have hready : ∀ d, Ready g first d ⟨∅, initial g.start⟩ := by
    intro d
    refine ⟨fun visitor symbol _ hs _ => ?_, ?_, ?_, SetFamily.length_ofFn _⟩
    · rw [SetFamily.get_empty] at hs
      exact absurd hs (CodeSet.not_mem_empty symbol)
    · exact mem_initial.mpr ⟨rfl, Alphabet.lt_size_of_isNonterminal wf.isNonterminal_start, rfl,
        wf.endOfInput_lt⟩
    · exact (SetFamily.length_add _ _ _).trans (SetFamily.length_ofFn _)
  obtain ⟨w', hleads, -, hcomplete⟩ :=
    exists_leads_nonterminals wf hfirst hacyclic g.alphabet.nonterminals _ hready
  have hresult : g.followGuarded first = w'.follow := by
    have hall := hleads []
    rw [List.append_nil, perform] at hall
    exact hall
  rw [hresult]
  exact hcomplete c (List.mem_filter.mpr
    ⟨List.mem_range.mpr (Alphabet.lt_size_of_isNonterminal hc), hc⟩)

end Acyclic

end Follow

namespace Grammar

/-- For every grammar text that is read, if no nonterminals inherit from each other in a circle,
guarded visits find the same FOLLOW sets as the repetition. -/
theorem follow_guarded_eq_fixedPoint {text : String} {g : Grammar}
    (h : Grammar.ofText text = .ok g) (hacyclic : ∀ c, ¬Relation.TransGen g.InheritsFrom c c)
    {c : Code} (hc : g.alphabet.isNonterminal c = true) :
    (g.follow .guardedRecursion g.first).get c = (g.follow .fixedPoint g.first).get c := by
  have wf := wellFormed_of_ofText h
  ext t
  constructor
  · exact Follow.mem_followFixedPoint_of_mem_follow wf .guardedRecursion
  · intro ht
    exact Follow.complete_followGuarded wf (First.sound_first wf) hacyclic hc t
      (Follow.arrives_of_mem_followFixedPoint ht)

/-- Nonterminals that inherit from earlier ones, and `A` from itself. -/
def descendingText : String :=
  "S -> A N\nA -> a A | a B\nB -> b\nN -> n | EPSILON"

/-- The grammar of that text; `B` has code 6 and `n` code 8. -/
def descending : Grammar where
  alphabet := ⟨["EPSILON", "$", "S", "A", "N", "a", "B", "b", "n"]⟩
  rules := [⟨0, 2, [3, 4]⟩, ⟨1, 3, [5, 3]⟩, ⟨2, 3, [5, 6]⟩, ⟨3, 6, [7]⟩, ⟨4, 4, [8]⟩, ⟨5, 4, [0]⟩]
  start := 2

/-- There `n` and the end of input come to `B` by way of `A`, also by guarded visits. -/
theorem follow_guarded_eq_fixedPoint_descending :
    Grammar.ofText descendingText = .ok descending ∧
      (∀ c, ¬Relation.TransGen descending.InheritsFrom c c) ∧
      (descending.follow .guardedRecursion descending.first).get 6 =
        (descending.follow .fixedPoint descending.first).get 6 ∧
      8 ∈ (descending.follow .guardedRecursion descending.first).get 6 ∧
      Code.endOfInput ∈ (descending.follow .guardedRecursion descending.first).get 6 := by
  have h : Grammar.ofText descendingText = .ok descending := by decide +kernel
  have hrules : ∀ r ∈ descending.rules, ∀ c ∈ r.rhs, c ≠ r.lhs →
      descending.alphabet.isNonterminal c = true → r.lhs < c := by
    decide +kernel
  have hstep : ∀ {c owner}, descending.InheritsFrom c owner → owner < c := by
    rintro c owner ⟨hne, hc, r, hr, rfl, before, rest, hrhs, -⟩
    exact hrules r hr c (by simp [hrhs]) hne hc
  have hchain : ∀ {c d}, Relation.TransGen descending.InheritsFrom c d → d < c := by
    intro c d hcd
    induction hcd with
    | single hcd => exact hstep hcd
    | tail _ hcd ih => exact Nat.lt_trans (hstep hcd) ih
  have hacyclic : ∀ c, ¬Relation.TransGen descending.InheritsFrom c c :=
    fun c hc => Nat.lt_irrefl c (hchain hc)
  have he : (descending.follow .guardedRecursion descending.first).get 6 =
      (descending.follow .fixedPoint descending.first).get 6 :=
    follow_guarded_eq_fixedPoint h hacyclic (by decide)
  refine ⟨h, hacyclic, he, ?_, ?_⟩
  · rw [he]
    decide +kernel
  · rw [he]
    decide +kernel

end Grammar

end PredictiveFrontend

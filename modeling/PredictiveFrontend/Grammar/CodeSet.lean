import PredictiveFrontend.Grammar.Alphabet

/-!
# Sets of symbols

A set of symbols of an alphabet of known size has one bit for every code. Two sets with the same
members are equal, and the members are listed in the order of their codes. A set only grows by
unions, and `CodeSet.rank` falls whenever it does; this is what ends every iteration over sets.
-/

namespace PredictiveFrontend

/-- A set of codes below `size`. -/
structure CodeSet (size : Nat) where
  /-- Bit `c` tells whether `c` is a member. -/
  bits : BitVec size
  deriving DecidableEq

namespace CodeSet

variable {size : Nat}

instance : EmptyCollection (CodeSet size) := ⟨⟨0⟩⟩

instance : Inhabited (CodeSet size) := ⟨∅⟩

instance : Membership Code (CodeSet size) := ⟨fun s c => s.bits.getLsbD c = true⟩

instance (c : Code) (s : CodeSet size) : Decidable (c ∈ s) :=
  inferInstanceAs (Decidable (s.bits.getLsbD c = true))

instance : Union (CodeSet size) := ⟨fun s t => ⟨s.bits ||| t.bits⟩⟩

/-- The set with one member; a code that is too large leaves it empty. -/
def singleton (c : Code) : CodeSet size :=
  ⟨BitVec.twoPow size c⟩

/-- The set without one member. -/
def erase (s : CodeSet size) (c : Code) : CodeSet size :=
  ⟨s.bits &&& ~~~BitVec.twoPow size c⟩

/-- The members in order. -/
def toList (s : CodeSet size) : List Code :=
  (List.range size).filter (· ∈ s)

/-- Whether every member of one set is a member of the other. -/
def subset (s t : CodeSet size) : Bool :=
  s ∪ t == t

theorem mem_def {c : Code} {s : CodeSet size} : c ∈ s ↔ s.bits.getLsbD c = true := Iff.rfl

theorem lt_of_mem {c : Code} {s : CodeSet size} (h : c ∈ s) : c < size :=
  BitVec.lt_of_getLsbD h

@[ext] theorem ext {s t : CodeSet size} (h : ∀ c, c ∈ s ↔ c ∈ t) : s = t := by
  obtain ⟨a⟩ := s
  obtain ⟨b⟩ := t
  congr 1
  apply BitVec.eq_of_getLsbD_eq
  intro c _
  exact Bool.eq_iff_iff.mpr (h c)

@[simp] theorem not_mem_empty (c : Code) : c ∉ (∅ : CodeSet size) := by
  rw [mem_def]
  simp [EmptyCollection.emptyCollection]

@[simp] theorem mem_union {c : Code} {s t : CodeSet size} : c ∈ s ∪ t ↔ c ∈ s ∨ c ∈ t := by
  simp [mem_def, Union.union]

@[simp] theorem mem_singleton {c d : Code} :
    c ∈ (singleton d : CodeSet size) ↔ c = d ∧ d < size := by
  simp only [mem_def, singleton, BitVec.getLsbD_twoPow, Bool.and_eq_true, decide_eq_true_eq]
  constructor
  · rintro ⟨h, rfl⟩
    exact ⟨rfl, h⟩
  · rintro ⟨rfl, h⟩
    exact ⟨h, rfl⟩

@[simp] theorem mem_erase {c d : Code} {s : CodeSet size} : c ∈ s.erase d ↔ c ∈ s ∧ c ≠ d := by
  simp only [mem_def, erase, BitVec.getLsbD_and, BitVec.getLsbD_not, BitVec.getLsbD_twoPow,
    Bool.and_eq_true, Bool.not_eq_true', Bool.and_eq_false_iff, decide_eq_true_eq,
    decide_eq_false_iff_not]
  constructor
  · rintro ⟨h, hc, hn⟩
    refine ⟨h, ?_⟩
    rintro rfl
    rcases hn with hn | hn
    · exact hn hc
    · exact hn rfl
  · rintro ⟨h, hn⟩
    exact ⟨h, lt_of_mem h, Or.inr fun he => hn he.symm⟩

@[simp] theorem mem_toList {c : Code} {s : CodeSet size} : c ∈ s.toList ↔ c ∈ s := by
  simp only [toList, List.mem_filter, List.mem_range, decide_eq_true_eq]
  exact ⟨And.right, fun h => ⟨lt_of_mem h, h⟩⟩

/-- The members are listed in ascending order. -/
theorem pairwise_toList (s : CodeSet size) : s.toList.Pairwise (· < ·) :=
  List.pairwise_lt_range.filter _

/-- Inclusion is membership in the larger set. -/
theorem subset_iff {s t : CodeSet size} : s.subset t = true ↔ ∀ c ∈ s, c ∈ t := by
  simp only [subset, beq_iff_eq]
  constructor
  · intro h c hc
    rw [← h, mem_union]
    exact Or.inl hc
  · intro h
    ext c
    rw [mem_union]
    exact ⟨fun hc => hc.elim (h c) id, Or.inr⟩

/-- A number that falls when a set grows: the bits of all that is missing. -/
def rank (s : CodeSet size) : Nat :=
  (~~~s.bits).toNat

/-- A union is one of its parts or has a smaller rank. -/
theorem union_eq_or_rank_lt (s t : CodeSet size) : s ∪ t = s ∨ (s ∪ t).rank < s.rank := by
  by_cases h : s ∪ t = s
  · exact Or.inl h
  · right
    have hle : s.bits.toNat ≤ (s ∪ t).bits.toNat := by
      simpa [Union.union] using Nat.left_le_or
    have hne : s.bits.toNat ≠ (s ∪ t).bits.toNat := by
      intro he
      apply h
      obtain ⟨a⟩ := s
      obtain ⟨b⟩ := t
      exact (congrArg CodeSet.mk (BitVec.eq_of_toNat_eq he)).symm
    have hlt := (s ∪ t).bits.isLt
    simp only [rank, BitVec.toNat_not]
    omega

end CodeSet

/-- One set of codes for every symbol of an alphabet. -/
structure SetFamily (size : Nat) where
  /-- The sets in the order of the codes. -/
  sets : List (CodeSet size)
  deriving DecidableEq

namespace SetFamily

variable {size : Nat}

/-- The family of the sets that a function gives. -/
def ofFn (f : Code → CodeSet size) : SetFamily size :=
  ⟨(List.range size).map f⟩

instance : EmptyCollection (SetFamily size) := ⟨ofFn fun _ => ∅⟩

/-- The set of a symbol; a code that is too large has the empty set. -/
def get (f : SetFamily size) (c : Code) : CodeSet size :=
  f.sets[c]?.getD ∅

/-- The family with more members in the set of one symbol. -/
def add (f : SetFamily size) (c : Code) (s : CodeSet size) : SetFamily size :=
  ⟨f.sets.modify c (· ∪ s)⟩

/-- Whether every set of one family is included in that of the other. -/
def subset (f g : SetFamily size) : Bool :=
  (List.range size).all fun c => (f.get c).subset (g.get c)

/-- The ranks of sets together. -/
def rankAll (sets : List (CodeSet size)) : Nat :=
  sets.foldr (fun s n => s.rank + n) 0

/-- A number that falls when a set of the family grows. -/
def rank (f : SetFamily size) : Nat :=
  rankAll f.sets

@[simp] theorem get_ofFn {f : Code → CodeSet size} {c : Code} (h : c < size) :
    (ofFn f).get c = f c := by
  simp [ofFn, get, h]

@[simp] theorem get_empty (c : Code) : (∅ : SetFamily size).get c = ∅ := by
  by_cases h : c < size
  · exact get_ofFn h
  · simp [EmptyCollection.emptyCollection, ofFn, get, h]

/-- Adding to one set leaves the others alone. -/
theorem get_add (f : SetFamily size) (c : Code) (s : CodeSet size) (d : Code) :
    (f.add c s).get d = if c = d ∧ c < f.sets.length then f.get d ∪ s else f.get d := by
  simp only [get, add, List.getElem?_modify]
  by_cases hd : c = d
  · subst hd
    by_cases hc : c < f.sets.length
    · simp [hc]
    · simp [hc]
  · simp [hd]

@[simp] theorem length_add (f : SetFamily size) (c : Code) (s : CodeSet size) :
    (f.add c s).sets.length = f.sets.length := by
  simp [add]

private theorem modify_eq_or_rank_lt (sets : List (CodeSet size)) (c : Nat) (s : CodeSet size) :
    sets.modify c (· ∪ s) = sets ∨ rankAll (sets.modify c (· ∪ s)) < rankAll sets := by
  induction sets generalizing c with
  | nil => simp
  | cons t rest ih =>
    cases c with
    | zero =>
      rcases t.union_eq_or_rank_lt s with h | h
      · left
        simp [h]
      · right
        simp only [List.modify_zero_cons, rankAll, List.foldr_cons]
        omega
    | succ c =>
      rcases ih c with h | h
      · left
        simp [h]
      · right
        simp only [List.modify_succ_cons, rankAll, List.foldr_cons] at h ⊢
        omega

/-- Adding members changes nothing or lowers the rank. -/
theorem add_eq_or_rank_lt (f : SetFamily size) (c : Code) (s : CodeSet size) :
    f.add c s = f ∨ (f.add c s).rank < f.rank := by
  obtain ⟨sets⟩ := f
  rcases modify_eq_or_rank_lt sets c s with h | h
  · exact Or.inl (congrArg SetFamily.mk h)
  · exact Or.inr h

end SetFamily

end PredictiveFrontend

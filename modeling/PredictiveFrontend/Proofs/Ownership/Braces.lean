import PredictiveFrontend.Token.Basic

/-!
# Open braces

Whether a brace is open in front of a token is a matter of counting: it is closed where the closing
braces behind it outnumber the opening ones for the first time. Closing braces that close nothing
are passed over. Read from left to right, the open braces are a stack: a closing brace closes the
innermost of them.
-/

namespace PredictiveFrontend

namespace Ownership

/-- The kind of the token at a position. -/
def KindAt (ts : List Token) (j : Nat) (kind : TokenKind) : Prop :=
  ts[j]?.map Token.kind = some kind

instance (ts : List Token) (j : Nat) (kind : TokenKind) : Decidable (KindAt ts j kind) :=
  inferInstanceAs (Decidable (_ = _))

/-- How many tokens of a kind stand between two positions, the first one included. -/
def countBetween (ts : List Token) (kind : TokenKind) (first last : Nat) : Nat :=
  ((ts.take last).drop first).countP fun t => t.kind == kind

/-- A brace is open in front of the token at a position: nowhere in between do closing braces
outnumber opening ones. -/
structure IsOpen (ts : List Token) (j b : Nat) : Prop where
  lt : b < j
  kindAt : KindAt ts b .openCurly
  count_le : ∀ m ≤ j, countBetween ts .closeCurly (b + 1) m ≤ countBetween ts .openCurly (b + 1) m

/-- A brace is closed by a token in front of which it is open and behind which it is not. -/
def Closes (ts : List Token) (b c : Nat) : Prop :=
  IsOpen ts c b ∧ ¬IsOpen ts (c + 1) b

variable {ts : List Token} {j b : Nat}

theorem kindAt_iff {t : Token} (ht : ts[j]? = some t) {kind : TokenKind} :
    KindAt ts j kind ↔ t.kind = kind := by
  rw [KindAt, ht, Option.map_some, Option.some.injEq]

/-- There is one token at a position. -/
theorem KindAt.eq {kind kind' : TokenKind} (h : KindAt ts j kind) (h' : KindAt ts j kind') :
    kind = kind' :=
  Option.some.inj (h.symm.trans h')

theorem KindAt.lt_length {kind : TokenKind} (h : KindAt ts j kind) : j < ts.length := by
  obtain ⟨t, ht, -⟩ := Option.map_eq_some_iff.mp h
  exact (List.getElem?_eq_some_iff.mp ht).1

/-- One more token is the last one of the tokens between two positions. -/
theorem take_succ_drop {first : Nat} (h : first ≤ j) {t : Token} (ht : ts[j]? = some t) :
    (ts.take (j + 1)).drop first = (ts.take j).drop first ++ [t] := by
  have hlength : first ≤ (ts.take j).length := by
    have hlt : j < ts.length := (List.getElem?_eq_some_iff.mp ht).1
    rw [List.length_take]
    omega
  rw [List.take_add_one, ht, Option.toList_some, List.drop_append_of_le_length hlength]

theorem countBetween_self (ts : List Token) (kind : TokenKind) (j : Nat) {m : Nat} (h : m ≤ j) :
    countBetween ts kind j m = 0 := by
  rw [countBetween, List.drop_eq_nil_of_le (Nat.le_trans (List.length_take_le _ _) h),
    List.countP_nil]

/-- One more token counts if it is of the kind. -/
theorem countBetween_succ {first : Nat} (h : first ≤ j) (kind : TokenKind) :
    countBetween ts kind first (j + 1) =
      countBetween ts kind first j + if KindAt ts j kind then 1 else 0 := by
  cases ht : ts[j]? with
  | none => simp [countBetween, List.take_add_one, KindAt, ht]
  | some t =>
    rw [countBetween, take_succ_drop h ht, List.countP_append, countBetween]
    simp [kindAt_iff ht, List.countP_cons]

/-- Behind one more token a brace is open that was open, unless the token closes it, and so is the
token if it is an opening brace. -/
theorem isOpen_succ_iff : IsOpen ts (j + 1) b ↔
    (b = j ∧ KindAt ts j .openCurly) ∨ IsOpen ts j b ∧
      countBetween ts .closeCurly (b + 1) (j + 1) ≤ countBetween ts .openCurly (b + 1) (j + 1) := by
  constructor
  · intro h
    rcases Nat.lt_succ_iff_lt_or_eq.mp h.lt with hlt | rfl
    · exact Or.inr ⟨⟨hlt, h.kindAt, fun m hm => h.count_le m (Nat.le_succ_of_le hm)⟩,
        h.count_le _ (Nat.le_refl _)⟩
    · exact Or.inl ⟨rfl, h.kindAt⟩
  · rintro (⟨rfl, hk⟩ | ⟨h, hcount⟩)
    · refine ⟨Nat.lt_succ_self _, hk, fun m hm => ?_⟩
      rw [countBetween_self ts _ _ hm]
      exact Nat.zero_le _
    · refine ⟨Nat.lt_succ_of_lt h.lt, h.kindAt, fun m hm => ?_⟩
      rcases Nat.le_succ_iff.mp hm with hle | rfl
      · exact h.count_le m hle
      · exact hcount

theorem IsOpen.count_succ (h : IsOpen ts j b) (kind : TokenKind) :
    countBetween ts kind (b + 1) (j + 1) =
      countBetween ts kind (b + 1) j + if KindAt ts j kind then 1 else 0 :=
  countBetween_succ h.lt kind

/-- Only a closing brace closes anything. -/
theorem IsOpen.succ (h : IsOpen ts j b) (hc : ¬KindAt ts j .closeCurly) : IsOpen ts (j + 1) b := by
  have hopens := h.count_succ .openCurly
  have hcloses := h.count_succ .closeCurly
  have hle := h.count_le j (Nat.le_refl _)
  rw [if_neg hc] at hcloses
  exact isOpen_succ_iff.mpr (Or.inr ⟨h, by omega⟩)

theorem Closes.kindAt (h : Closes ts b j) : KindAt ts j .closeCurly := by
  by_cases hc : KindAt ts j .closeCurly
  · exact hc
  · exact absurd (h.1.succ hc) h.2

/-- Between two braces nothing is opened or closed. -/
theorem isOpen_iff_of_no_brace {m : Nat} (hle : m ≤ j)
    (h : ∀ i, m ≤ i → i < j → ¬KindAt ts i .openCurly ∧ ¬KindAt ts i .closeCurly) :
    IsOpen ts j b ↔ IsOpen ts m b := by
  induction hle with
  | refl => rfl
  | @step j hle ih =>
    obtain ⟨ho, hc⟩ := h j hle (Nat.lt_succ_self j)
    rw [← ih fun i hi hlt => h i hi (Nat.lt_succ_of_lt hlt)]
    refine ⟨fun hopen => ?_, fun hopen => hopen.succ hc⟩
    rcases isOpen_succ_iff.mp hopen with ⟨-, ho'⟩ | ⟨hopen, -⟩
    · exact absurd ho' ho
    · exact hopen

/-- The braces that are open in front of a token, innermost first: behind each of them as many more
braces are opened than closed as there are inside of it. -/
structure OpenStack (ts : List Token) (j : Nat) (opens : List Nat) : Prop where
  sorted : opens.Pairwise (· > ·)
  excess : ∀ i b, opens[i]? = some b → IsOpen ts j b ∧
    countBetween ts .openCurly (b + 1) j = countBetween ts .closeCurly (b + 1) j + i
  mem : ∀ b, IsOpen ts j b → b ∈ opens

namespace OpenStack

variable {opens : List Nat}

theorem nil (ts : List Token) : OpenStack ts 0 [] where
  sorted := .nil
  excess := by simp
  mem := fun _ h => absurd h.lt (Nat.not_lt_zero _)

theorem isOpen (h : OpenStack ts j opens) (hb : b ∈ opens) : IsOpen ts j b := by
  obtain ⟨i, hi⟩ := List.mem_iff_getElem?.mp hb
  exact (h.excess i b hi).1

/-- An opening brace is the innermost one. -/
theorem push (h : OpenStack ts j opens) (hk : KindAt ts j .openCurly) :
    OpenStack ts (j + 1) (j :: opens) where
  sorted := List.pairwise_cons.mpr ⟨fun b hb => (h.isOpen hb).lt, h.sorted⟩
  excess := by
    intro i b hi
    cases i with
    | zero =>
      obtain rfl : j = b := by simpa using hi
      refine ⟨isOpen_succ_iff.mpr (Or.inl ⟨rfl, hk⟩), ?_⟩
      rw [countBetween_self ts _ _ (Nat.le_refl _), countBetween_self ts _ _ (Nat.le_refl _)]
    | succ i =>
      obtain ⟨hopen, hcount⟩ := h.excess i b hi
      have hc : ¬KindAt ts j .closeCurly := fun hc => by cases hk.eq hc
      have hopens := hopen.count_succ .openCurly
      have hcloses := hopen.count_succ .closeCurly
      rw [if_pos hk] at hopens
      rw [if_neg hc] at hcloses
      exact ⟨hopen.succ hc, by omega⟩
  mem := by
    intro b hb
    rcases isOpen_succ_iff.mp hb with ⟨rfl, -⟩ | ⟨hopen, -⟩
    · exact List.mem_cons_self ..
    · exact List.mem_cons_of_mem _ (h.mem b hopen)

/-- A closing brace closes the innermost open one, if there is one. -/
theorem pop (h : OpenStack ts j opens) (hk : KindAt ts j .closeCurly) :
    OpenStack ts (j + 1) opens.tail := by
  have ho : ¬KindAt ts j .openCurly := fun ho => by cases hk.eq ho
  have hcount : ∀ i b, opens[i]? = some b → IsOpen ts j b ∧
      countBetween ts .openCurly (b + 1) (j + 1) + 1 =
        countBetween ts .closeCurly (b + 1) (j + 1) + i := by
    intro i b hi
    obtain ⟨hopen, hcount⟩ := h.excess i b hi
    have hopens := hopen.count_succ .openCurly
    have hcloses := hopen.count_succ .closeCurly
    rw [if_neg ho] at hopens
    rw [if_pos hk] at hcloses
    exact ⟨hopen, by omega⟩
  refine ⟨h.sorted.sublist (List.tail_sublist _), fun i b hi => ?_, fun b hb => ?_⟩
  · rw [List.getElem?_tail] at hi
    obtain ⟨hopen, he⟩ := hcount (i + 1) b hi
    exact ⟨isOpen_succ_iff.mpr (Or.inr ⟨hopen, by omega⟩), by omega⟩
  · rcases isOpen_succ_iff.mp hb with ⟨-, ho'⟩ | ⟨hopen, hle⟩
    · exact absurd ho' ho
    · obtain ⟨i, hi⟩ := List.mem_iff_getElem?.mp (h.mem b hopen)
      cases i with
      | zero =>
        -- Behind the innermost brace more is closed now than opened.
        have he := (hcount 0 b hi).2
        omega
      | succ i =>
        rw [← List.getElem?_tail] at hi
        exact List.mem_of_getElem? hi

/-- Any other token leaves all braces as they are. -/
theorem skip (h : OpenStack ts j opens) (ho : ¬KindAt ts j .openCurly)
    (hc : ¬KindAt ts j .closeCurly) : OpenStack ts (j + 1) opens where
  sorted := h.sorted
  excess := by
    intro i b hi
    obtain ⟨hopen, hcount⟩ := h.excess i b hi
    have hopens := hopen.count_succ .openCurly
    have hcloses := hopen.count_succ .closeCurly
    rw [if_neg ho] at hopens
    rw [if_neg hc] at hcloses
    exact ⟨hopen.succ hc, by omega⟩
  mem := by
    intro b hb
    rcases isOpen_succ_iff.mp hb with ⟨-, ho'⟩ | ⟨hopen, -⟩
    · exact absurd ho' ho
    · exact h.mem b hopen

/-- A closing brace closes the innermost brace that is open. -/
theorem closes_iff (h : OpenStack ts j opens) (hk : KindAt ts j .closeCurly) :
    Closes ts b j ↔ opens.head? = some b := by
  have hpop := h.pop hk
  cases opens with
  | nil => simpa using fun hcloses => List.not_mem_nil (h.mem b hcloses.1)
  | cons first rest =>
    rw [List.head?_cons, Option.some.injEq]
    constructor
    · rintro ⟨hopen, hclosed⟩
      rcases List.mem_cons.mp (h.mem b hopen) with rfl | hmem
      · rfl
      · exact absurd (hpop.isOpen hmem) hclosed
    · rintro rfl
      refine ⟨h.isOpen (List.mem_cons_self ..), fun hopen => ?_⟩
      exact absurd ((List.pairwise_cons.mp h.sorted).1 first (hpop.mem first hopen))
        (Nat.lt_irrefl _)

end OpenStack

end Ownership

end PredictiveFrontend

import PredictiveFrontend.Grammar.Alphabet
import Mathlib.Data.Finset.Card
import Mathlib.Data.Finset.Range
import Mathlib.Order.Monotone.Basic
import Mathlib.Tactic.Ring

/-!
# Unrolling symbols

While the lookahead stays the same the machine replaces the symbol on top by a list of symbols that
depends on nothing else. If this comes to an end it does so soon: a symbol that comes up while
another one is unrolled takes fewer steps than that one, so no symbol comes up inside itself, and
the symbols whose unrolling ends at all bound the depth to which they are nested.
-/

namespace PredictiveFrontend

variable {expand : Code → Option (List Code)}

/-- So many times the first symbol of a list is replaced by the symbols it expands into. -/
inductive Unrolls (expand : Code → Option (List Code)) : Nat → List Code → List Code → Prop where
  | refl (symbols : List Code) : Unrolls expand 0 symbols symbols
  | step {c : Code} {body rest result : List Code} {n : Nat} (hc : expand c = some body)
    (h : Unrolls expand n (body ++ rest) result) : Unrolls expand (n + 1) (c :: rest) result

/-- The first symbol of a list, if there is one, expands into nothing. -/
def Settled (expand : Code → Option (List Code)) (symbols : List Code) : Prop :=
  ∀ c ∈ symbols.head?, expand c = none

namespace Unrolls

/-- How often a list is unrolled until it is settled is determined, and so is the result. -/
theorem unique {n m : Nat} {symbols result result' : List Code}
    (h : Unrolls expand n symbols result) (hs : Settled expand result)
    (h' : Unrolls expand m symbols result') (hs' : Settled expand result') :
    n = m ∧ result = result' := by
  induction h generalizing m with
  | refl symbols =>
    cases h' with
    | refl => exact ⟨rfl, rfl⟩
    | step hc _ =>
      rw [hs _ rfl] at hc
      cases hc
  | step hc _ ih =>
    cases h' with
    | refl =>
      rw [hs' _ rfl] at hc
      cases hc
    | step hc' h' =>
      rw [hc] at hc'
      cases hc'
      obtain ⟨rfl, rfl⟩ := ih hs h'
      exact ⟨rfl, rfl⟩

/-- A concatenation is unrolled from the left: either the first part vanishes and the second is
unrolled next, or the first part settles and the second is not touched. -/
theorem append_cases {n : Nat} {symbols rest result : List Code}
    (h : Unrolls expand n (symbols ++ rest) result) (hs : Settled expand result) :
    (∃ k m, n = k + m ∧ Unrolls expand k symbols [] ∧ Unrolls expand m rest result) ∨
      ∃ result', Unrolls expand n symbols result' ∧ Settled expand result' ∧
        result = result' ++ rest := by
  generalize hall : symbols ++ rest = all at h
  induction h generalizing symbols with
  | refl all =>
    subst hall
    cases symbols with
    | nil => exact Or.inl ⟨0, 0, rfl, .refl _, .refl _⟩
    | cons c symbols => exact Or.inr ⟨c :: symbols, .refl _, hs, rfl⟩
  | @step c body tail result n hc h ih =>
    cases symbols with
    | nil =>
      rw [List.nil_append] at hall
      subst hall
      exact Or.inl ⟨0, n + 1, (Nat.zero_add _).symm, .refl _, .step hc h⟩
    | cons d symbols =>
      obtain ⟨rfl, rfl⟩ := List.cons.inj hall
      rcases ih hs (List.append_assoc ..) with ⟨k, m, rfl, hk, hm⟩ | ⟨result', hr, hs', rfl⟩
      · exact Or.inl ⟨k + 1, m, Nat.add_right_comm .., .step hc hk, hm⟩
      · exact Or.inr ⟨result', .step hc hr, hs', rfl⟩

end Unrolls

/-! ### How long unrolling takes -/

open Classical in
/-- The symbols below `size` that are unrolled, at least once and fewer than `n` times, until they
are settled. -/
noncomputable def quickSymbols (expand : Code → Option (List Code)) (size n : Nat) : Finset Code :=
  (Finset.range size).filter fun c =>
    ∃ m result, m + 1 < n ∧ Unrolls expand (m + 1) [c] result ∧ Settled expand result

open Classical in
theorem mem_quickSymbols {size n : Nat} {c : Code} : c ∈ quickSymbols expand size n ↔
    c < size ∧ ∃ m result, m + 1 < n ∧ Unrolls expand (m + 1) [c] result ∧
      Settled expand result := by
  rw [quickSymbols, Finset.mem_filter, Finset.mem_range]

open Classical in
theorem card_quickSymbols_le (size n : Nat) : (quickSymbols expand size n).card ≤ size :=
  (Finset.card_filter_le _ _).trans_eq (Finset.card_range size)

theorem card_quickSymbols_mono {size n m : Nat} (h : n ≤ m) :
    (quickSymbols expand size n).card ≤ (quickSymbols expand size m).card := by
  refine Finset.card_le_card fun c hc => ?_
  obtain ⟨hlt, k, result, hk, hu⟩ := mem_quickSymbols.mp hc
  exact mem_quickSymbols.mpr ⟨hlt, k, result, by omega, hu⟩

/-- A symbol is quick from the number of its steps on. -/
theorem card_quickSymbols_lt {size n : Nat} {c : Code} (hc : c < size) {result : List Code}
    (h : Unrolls expand (n + 1) [c] result) (hs : Settled expand result) :
    (quickSymbols expand size (n + 1)).card < (quickSymbols expand size (n + 2)).card := by
  refine Finset.card_lt_card (Finset.ssubset_iff_of_subset ?_ |>.mpr ⟨c, ?_, ?_⟩)
  · intro d hd
    obtain ⟨hlt, k, result', hk, hu⟩ := mem_quickSymbols.mp hd
    exact mem_quickSymbols.mpr ⟨hlt, k, result', by omega, hu⟩
  · exact mem_quickSymbols.mpr ⟨hc, n, result, by omega, h, hs⟩
  · intro hm
    obtain ⟨_, k, result', hk, hu, hs'⟩ := mem_quickSymbols.mp hm
    have he := (h.unique hs hu hs').1
    omega

/-- How many nodes a tree of some depth has at most, with `width` children at every node. -/
def treeSize (width : Nat) : Nat → Nat
  | 0 => 0
  | depth + 1 => 1 + width * treeSize width depth

theorem treeSize_mono (width : Nat) : Monotone (treeSize width) := by
  refine monotone_nat_of_le_succ fun depth => ?_
  induction depth with
  | zero => exact Nat.zero_le _
  | succ depth ih => exact Nat.add_le_add_left (Nat.mul_le_mul_left width ih) 1

theorem treeSize_le_pow (width depth : Nat) : treeSize width depth ≤ (width + 1) ^ depth := by
  induction depth with
  | zero => exact Nat.zero_le _
  | succ depth ih =>
    have hpos : 0 < (width + 1) ^ depth := Nat.pow_pos (Nat.succ_pos width)
    calc treeSize width (depth + 1) = 1 + width * treeSize width depth := rfl
      _ ≤ (width + 1) ^ depth + width * (width + 1) ^ depth :=
        Nat.add_le_add hpos (Nat.mul_le_mul_left width ih)
      _ = (width + 1) ^ (depth + 1) := by ring

section Bound

variable {size width : Nat} (hsize : ∀ c body, expand c = some body → c < size)
  (hwidth : ∀ c body, expand c = some body → body.length ≤ width)
include hsize hwidth

/-- What is known of a list that settles in `n` steps: how large `n` is, and how long the list gets
in the end. -/
private def Bounded (expand : Code → Option (List Code)) (size width n : Nat) : Prop :=
  ∀ symbols result, Unrolls expand n symbols result → Settled expand result →
    n ≤ symbols.length * treeSize width (quickSymbols expand size (n + 1)).card ∧
      result.length ≤ symbols.length + width * (quickSymbols expand size (n + 1)).card

/-- A single symbol is unrolled into its body first, and all that comes up there is quicker. -/
private theorem bounded_singleton {n : Nat} (ih : ∀ m < n, Bounded expand size width m) {c : Code}
    {result : List Code} (h : Unrolls expand n [c] result) (hs : Settled expand result) :
    n ≤ treeSize width (quickSymbols expand size (n + 1)).card ∧
      result.length ≤ 1 + width * (quickSymbols expand size (n + 1)).card := by
  cases h with
  | refl => exact ⟨Nat.zero_le _, Nat.le_add_right _ _⟩
  | @step _ body _ _ m hc hbody =>
    have hquick := card_quickSymbols_lt (hsize c body hc) (.step hc hbody) hs
    rw [List.append_nil] at hbody
    obtain ⟨hm, hlength⟩ := ih m (Nat.lt_succ_self m) body result hbody hs
    generalize (quickSymbols expand size (m + 1)).card = depth at *
    generalize (quickSymbols expand size (m + 2)).card = depth' at *
    have hb := hwidth c body hc
    constructor
    · calc m + 1 ≤ width * treeSize width depth + 1 :=
          Nat.add_le_add_right (hm.trans (Nat.mul_le_mul_right _ hb)) 1
        _ = treeSize width (depth + 1) := Nat.add_comm ..
        _ ≤ treeSize width depth' := treeSize_mono width hquick
    · calc result.length ≤ width + width * depth := hlength.trans (Nat.add_le_add_right hb _)
        _ = width * (depth + 1) := by ring
        _ ≤ width * depth' := Nat.mul_le_mul_left width hquick
        _ ≤ 1 + width * depth' := Nat.le_add_left _ _

private theorem bounded (n : Nat) : Bounded expand size width n := by
  -- The body of a symbol settles in one step less, and what is behind a symbol that vanishes in
  -- fewer steps as well, so the induction is on the steps and not on the list.
  induction n using Nat.strong_induction_on with
  | _ n ih =>
    intro symbols result h hs
    cases symbols with
    | nil =>
      cases h
      exact ⟨Nat.zero_le _, Nat.zero_le _⟩
    | cons c rest =>
      rw [List.length_cons, Nat.succ_mul]
      have hsplit : Unrolls expand n ([c] ++ rest) result := h
      rcases hsplit.append_cases hs with ⟨k, m, rfl, hk, hm⟩ | ⟨result', hr, hs', rfl⟩
      · have hpos : 0 < k := by
          cases hk
          exact Nat.succ_pos _
        have hvanish : Settled expand [] := by simp [Settled]
        have hfirst := (bounded_singleton hsize hwidth (fun j hj => ih j (by omega)) hk hvanish).1
        obtain ⟨hrest, hlength⟩ := ih m (by omega) rest result hm hs
        have hcard₁ : (quickSymbols expand size (k + 1)).card ≤
            (quickSymbols expand size (k + m + 1)).card := card_quickSymbols_mono (by omega)
        have hcard₂ : (quickSymbols expand size (m + 1)).card ≤
            (quickSymbols expand size (k + m + 1)).card := card_quickSymbols_mono (by omega)
        have hk' := hfirst.trans (treeSize_mono width hcard₁)
        have hm' := hrest.trans (Nat.mul_le_mul_left rest.length (treeSize_mono width hcard₂))
        have hl' := hlength.trans (Nat.add_le_add_left (Nat.mul_le_mul_left width hcard₂) _)
        exact ⟨by omega, by omega⟩
      · obtain ⟨hn, hlength⟩ := bounded_singleton hsize hwidth ih hr hs'
        rw [List.length_append]
        exact ⟨by omega, by omega⟩

/-- A list of symbols that settles does so after a number of steps that its length, the number of
symbols and the length of the bodies bound, and it does not get much longer. -/
theorem Unrolls.le_of_settled {n : Nat} {symbols result : List Code}
    (h : Unrolls expand n symbols result) (hs : Settled expand result) :
    n ≤ symbols.length * (width + 1) ^ size ∧ result.length ≤ symbols.length + width * size := by
  obtain ⟨hn, hlength⟩ := bounded hsize hwidth n symbols result h hs
  have hcard : (quickSymbols expand size (n + 1)).card ≤ size := card_quickSymbols_le ..
  constructor
  · refine hn.trans (Nat.mul_le_mul_left _ ?_)
    exact (treeSize_mono width hcard).trans (treeSize_le_pow width size)
  · exact hlength.trans (Nat.add_le_add_left (Nat.mul_le_mul_left width hcard) _)

end Bound

end PredictiveFrontend

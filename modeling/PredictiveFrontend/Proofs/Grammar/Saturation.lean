import PredictiveFrontend.Grammar.Saturation
import Mathlib.Logic.Function.Iterate

/-!
# Rounds that change nothing

Saturation repeats a round until it changes nothing. A round is many small additions; since none
of them ever takes anything back, a round that changes nothing consists of additions that change
nothing. The sets reached are therefore closed under every single addition.
-/

namespace PredictiveFrontend

variable {α β : Type}

/-- Steps that lower a rank never raise it. -/
theorem LowersRank.le {rank : α → Nat} {step : α → α} (h : LowersRank rank step) (x : α) :
    rank (step x) ≤ rank x := by
  rcases h x with he | hlt
  · exact Nat.le_of_eq (congrArg rank he)
  · exact Nat.le_of_lt hlt

/-- If many steps together change nothing, no single one of them does. -/
theorem LowersRank.fixed_of_foldl {rank : α → Nat} {step : α → β → α}
    (h : ∀ b, LowersRank rank fun x => step x b) {bs : List β} {x : α}
    (hx : bs.foldl step x = x) : ∀ b ∈ bs, step x b = x := by
  induction bs with
  | nil => simp
  | cons b bs ih =>
    rw [List.foldl_cons] at hx
    have hb : step x b = x := by
      rcases h b x with he | hlt
      · exact he
      · have hle := LowersRank.le (LowersRank.foldl h bs) (step x b)
        simp only [hx] at hle hlt
        omega
    rw [hb] at hx
    intro c hc
    rcases List.mem_cons.mp hc with rfl | hc
    · exact hb
    · exact ih hx c hc

/-- A property that every single step keeps is kept by saturation with rounds of such steps. -/
theorem saturate_foldl_induction [DecidableEq α] {P : α → Prop} {rank : α → Nat}
    {step : α → β → α} {bs : List β} (h : LowersRank rank fun x => bs.foldl step x)
    (keeps : ∀ b ∈ bs, ∀ x, P x → P (step x b)) {x : α} (hx : P x) :
    P (saturate rank (fun x => bs.foldl step x) h x) := by
  refine saturate_induction h (fun y hy => ?_) hx
  exact List.foldlRecOn bs step hy fun z hz b hb => keeps b hb z hz

/-- Saturation is a finite number of rounds. -/
theorem exists_iterate_eq_saturate [DecidableEq α] {rank : α → Nat} {step : α → α}
    (h : LowersRank rank step) (x : α) : ∃ n, step^[n] x = saturate rank step h x := by
  fun_induction saturate rank step h x with
  | case1 x y hy => exact ⟨0, rfl⟩
  | case2 x y hy ih =>
    obtain ⟨n, hn⟩ := ih
    exact ⟨n + 1, hn⟩

namespace SetFamily

variable {size : Nat}

@[simp] theorem length_ofFn (f : Code → CodeSet size) : (ofFn f).sets.length = size := by
  simp [ofFn]

/-- What is in a set after an addition was there before or was added to it. -/
theorem mem_get_add {f : SetFamily size} {c d t : Code} {s : CodeSet size} :
    t ∈ (f.add c s).get d ↔ t ∈ f.get d ∨ (c = d ∧ c < f.sets.length ∧ t ∈ s) := by
  rw [get_add]
  split
  · next h =>
    rw [CodeSet.mem_union]
    exact or_congr_right ⟨fun hs => ⟨h.1, h.2, hs⟩, fun hs => hs.2.2⟩
  · next h =>
    refine ⟨Or.inl, ?_⟩
    rintro (hm | ⟨hc, hl, _⟩)
    · exact hm
    · exact absurd ⟨hc, hl⟩ h

/-- An addition that changes nothing adds what is there already. -/
theorem subset_of_add_eq {f : SetFamily size} {c : Code} {s : CodeSet size}
    (h : f.add c s = f) (hc : c < f.sets.length) {t : Code} (ht : t ∈ s) : t ∈ f.get c := by
  rw [← h]
  exact mem_get_add.mpr (Or.inr ⟨rfl, hc, ht⟩)

/-- Codes without a set have the empty one. -/
theorem lt_of_mem_get {f : SetFamily size} {c t : Code} (h : t ∈ f.get c) : c < f.sets.length := by
  refine Nat.lt_of_not_le fun hc => ?_
  rw [get, List.getElem?_eq_none hc] at h
  exact CodeSet.not_mem_empty t h

end SetFamily

end PredictiveFrontend

import PredictiveFrontend.Grammar.CodeSet

/-!
# Saturation

A step that lowers a rank whenever it changes a value can be repeated until it changes nothing. The
value reached is fixed by the step, and has every property that the step keeps.
-/

namespace PredictiveFrontend

variable {α β : Type}

/-- A step lowers a rank when every value it changes gets a smaller rank. -/
def LowersRank (rank : α → Nat) (step : α → α) : Prop :=
  ∀ x, step x = x ∨ rank (step x) < rank x

/-- Steps done one after the other lower the rank together. -/
theorem LowersRank.foldl {rank : α → Nat} {step : α → β → α}
    (h : ∀ b, LowersRank rank fun x => step x b) (bs : List β) :
    LowersRank rank fun x => bs.foldl step x := by
  induction bs with
  | nil => intro x; exact Or.inl rfl
  | cons b bs ih =>
    intro x
    have h₁ := h b x
    have h₂ := ih (step x b)
    simp only [List.foldl_cons] at h₁ h₂ ⊢
    rcases h₁ with h₁ | h₁ <;> rcases h₂ with h₂ | h₂
    · exact Or.inl (h₂.trans h₁)
    · rw [h₁] at h₂ ⊢
      exact Or.inr h₂
    · rw [h₂]
      exact Or.inr h₁
    · exact Or.inr (Nat.lt_trans h₂ h₁)

/-- Repeat a step until it changes nothing. -/
def saturate [DecidableEq α] (rank : α → Nat) (step : α → α) (h : LowersRank rank step)
    (x : α) : α :=
  let y := step x
  if y = x then x else saturate rank step h y
termination_by rank x
decreasing_by exact (h x).resolve_left ‹_›

variable [DecidableEq α] {rank : α → Nat} {step : α → α}

/-- The step changes nothing on a saturated value. -/
theorem step_saturate (h : LowersRank rank step) (x : α) :
    step (saturate rank step h x) = saturate rank step h x := by
  fun_induction saturate rank step h x with
  | case1 x y hy => exact hy
  | case2 x y _ ih => exact ih

/-- A property that the step keeps is kept by saturation. -/
theorem saturate_induction {P : α → Prop} (h : LowersRank rank step)
    (keeps : ∀ x, P x → P (step x)) {x : α} (hx : P x) : P (saturate rank step h x) := by
  fun_induction saturate rank step h x with
  | case1 x y hy => exact hx
  | case2 x y _ ih => exact ih (keeps x hx)

end PredictiveFrontend

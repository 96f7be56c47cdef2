/-!
# Tables of code points

A property of characters is given by the closed ranges of code points that have it, in ascending
order.
-/

namespace PredictiveFrontend.Text

/-- Whether a character lies in one of the closed ranges of a table. -/
def inRanges (table : List (Nat × Nat)) (c : Char) : Bool :=
  table.any fun r => r.1 ≤ c.toNat && c.toNat ≤ r.2

/-- A character is in a table exactly when one of its ranges holds the code point. -/
theorem inRanges_iff {table : List (Nat × Nat)} {c : Char} :
    inRanges table c = true ↔ ∃ r ∈ table, r.1 ≤ c.toNat ∧ c.toNat ≤ r.2 := by
  simp [inRanges]

end PredictiveFrontend.Text

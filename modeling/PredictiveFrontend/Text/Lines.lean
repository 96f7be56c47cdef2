/-!
# Lines of a text

A text is cut at its line feeds. Every cut is undone by joining the pieces with line feeds again;
a final line feed ends the last line and opens no further one.
-/

namespace PredictiveFrontend.Text

/-- The pieces of a text between its line feeds; there is always at least one. -/
def pieces : List Char → List (List Char)
  | [] => [[]]
  | c :: rest =>
    match pieces rest with
    | [] => [[c]]
    | first :: others => if c = '\n' then [] :: first :: others else (c :: first) :: others

theorem pieces_ne_nil (text : List Char) : pieces text ≠ [] := by
  cases text with
  | nil => simp [pieces]
  | cons c rest =>
    unfold pieces
    split
    · simp
    · split <;> simp

/-- Joining the pieces with line feeds gives the text back. -/
theorem intercalate_pieces (text : List Char) :
    ['\n'].intercalate (pieces text) = text := by
  induction text with
  | nil => rfl
  | cons c rest ih =>
    unfold pieces
    split
    · next h => exact absurd h (pieces_ne_nil rest)
    · next first others h =>
      rw [h] at ih
      split
      · next hc =>
        subst hc
        rw [← ih]
        simp [List.intercalate]
      · rw [← ih]
        cases others <;> simp [List.intercalate]

/-- The text without one final line feed. -/
def dropFinalLineFeed (text : List Char) : List Char :=
  if text.getLast? = some '\n' then text.dropLast else text

/-- The lines of a text: no line for the empty text, none after a final line feed. -/
def lines (text : List Char) : List (List Char) :=
  if text = [] then [] else pieces (dropFinalLineFeed text)

end PredictiveFrontend.Text

/-!
# Readers

A reader takes a value off the front of a text, or fails. What it leaves is read by the next one.
-/

namespace PredictiveFrontend

/-- A value read off the front of a text, with the rest of the text. -/
abbrev TextReader (α : Type) := StateT (List Char) Option α

namespace TextReader

/-- The next character, which stays in the text. -/
def peek : TextReader (Option Char) := do
  return (← get).head?

/-- The next character. -/
def next : TextReader Char
  | [] => none
  | c :: rest => some (c, rest)

/-- The next character, which must be in a class. -/
def one (p : Char → Bool) : TextReader Char := do
  let c ← next
  if p c then return c else failure

/-- The longest run of characters of a class. -/
def takeWhile (p : Char → Bool) : TextReader (List Char) :=
  fun text => some (text.span p)

/-- The given number of characters of a class. -/
def exactly (n : Nat) (p : Char → Bool) : TextReader (List Char) := fun text =>
  let taken := text.take n
  if taken.length = n ∧ taken.all p then some (taken, text.drop n) else none

/-- Exactly the given characters. -/
def word (s : String) : TextReader Unit := fun text =>
  if s.toList.isPrefixOf text then some ((), text.drop s.length) else none

/-- Whether the given characters are next; if they are, they are read. -/
def skips (s : String) : TextReader Bool := fun text =>
  if s.toList.isPrefixOf text then some (true, text.drop s.length) else some (false, text)

/-- What a reader reads, or nothing where it fails. -/
def optional? {α : Type} (p : TextReader α) : TextReader (Option α) := fun text =>
  match p text with
  | some (a, rest) => some (some a, rest)
  | none => some (none, text)

/-- What a reader reads as often as it reads anything. -/
def many {α : Type} (p : TextReader α) (text : List Char) : Option (List α × List Char) :=
  match p text with
  | some (a, rest) =>
    if rest.length < text.length then (many p rest).map fun (as, left) => (a :: as, left)
    else some ([], text)
  | none => some ([], text)
termination_by text.length

/-- What a reader reads, once at least, between separators. -/
def separated {α : Type} (p : TextReader α) (separator : TextReader Unit) :
    TextReader (List α) := do
  let first ← p
  let others ← many do separator; p
  return first :: others

/-- The value that a reader reads off a whole text. -/
def whole? {α : Type} (p : TextReader α) (text : List Char) : Option α :=
  match p text with
  | some (a, []) => some a
  | _ => none

end TextReader

end PredictiveFrontend

import PredictiveFrontend.Text.Uppercase

/-!
# Alphabets of grammar symbols

A grammar symbol is known by its code, its position in the alphabet. Codes 0 and 1 are the marker
of the empty word and the end of input; every other symbol gets the next code when its name is
first seen. Whether a symbol is a terminal is read off its name.
-/

namespace PredictiveFrontend

/-- The position of a symbol in its alphabet. -/
abbrev Code := Nat

namespace Code

/-- The marker of the empty word. -/
def epsilon : Code := 0

/-- The end of input. -/
def endOfInput : Code := 1

end Code

/-- Whether a symbol stands for itself or is expanded by rules. -/
inductive SymbolKind where
  | terminal
  | nonterminal
  deriving DecidableEq, Repr, Inhabited

namespace SymbolName

/-- How the empty word is written in a rule. -/
def epsilon : String := "EPSILON"

/-- How the end of input is shown. -/
def endOfInput : String := "$"

/-- A second name of the end of input, which no symbol may take. -/
def endOfInputKeyword : String := "END_OF_INPUT"

/-- Names with a capital first letter that are terminals all the same. -/
def builtinTypes : List String :=
  ["Int", "Char", "Double", "Array<Int>", "Array<Char>"]

/-- Names that a grammar text may not use. -/
def isReserved (name : String) : Bool :=
  name == endOfInputKeyword || name == endOfInput

end SymbolName

/-- The kind of a symbol: a name with an uppercase first character is a nonterminal, unless it is
the empty word or a built-in type. -/
def SymbolKind.ofName (name : String) : SymbolKind :=
  if name = SymbolName.epsilon ∨ name ∈ SymbolName.builtinTypes then .terminal
  else match name.toList with
    | c :: _ => if Text.isUppercase c then .nonterminal else .terminal
    | [] => .terminal

/-- The symbols of a grammar; the code of a symbol is its position. -/
structure Alphabet where
  /-- The names in order of their codes. -/
  names : List String
  deriving DecidableEq, Repr

namespace Alphabet

/-- The alphabet that holds only the empty word and the end of input. -/
def base : Alphabet := ⟨[SymbolName.epsilon, SymbolName.endOfInput]⟩

instance : Inhabited Alphabet := ⟨base⟩

/-- The number of symbols. -/
def size (a : Alphabet) : Nat := a.names.length

/-- The code of a name, if the alphabet holds it. -/
def code? (a : Alphabet) (name : String) : Option Code :=
  a.names.idxOf? name

/-- The code of a name; a name that the alphabet does not hold has the first unused code. -/
def code (a : Alphabet) (name : String) : Code :=
  a.names.idxOf name

/-- The name of a code; unused codes have the empty name. -/
def name (a : Alphabet) (c : Code) : String :=
  a.names[c]?.getD ""

/-- The alphabet with a name in it, at the end if it is new. -/
def intern (a : Alphabet) (name : String) : Alphabet :=
  if name ∈ a.names then a else ⟨a.names ++ [name]⟩

/-- The alphabet with the names of a list in it, new ones in first-seen order. -/
def internAll (a : Alphabet) (names : List String) : Alphabet :=
  names.foldl intern a

/-- The kind of a symbol. -/
def kind (a : Alphabet) (c : Code) : SymbolKind :=
  SymbolKind.ofName (a.name c)

/-- Whether a symbol stands for itself. -/
def isTerminal (a : Alphabet) (c : Code) : Bool :=
  a.kind c == .terminal

/-- Whether a symbol is expanded by rules. -/
def isNonterminal (a : Alphabet) (c : Code) : Bool :=
  a.kind c == .nonterminal

/-- All codes in order. -/
def codes (a : Alphabet) : List Code :=
  List.range a.size

/-- The codes of all terminals in order. -/
def terminals (a : Alphabet) : List Code :=
  a.codes.filter a.isTerminal

/-- The codes of all nonterminals in order. -/
def nonterminals (a : Alphabet) : List Code :=
  a.codes.filter a.isNonterminal

theorem isNonterminal_eq_not (a : Alphabet) (c : Code) : a.isNonterminal c = !a.isTerminal c := by
  cases h : a.kind c <;> simp [isNonterminal, isTerminal, h]

theorem size_intern_of_not_mem {a : Alphabet} {name : String} (h : name ∉ a.names) :
    (a.intern name).size = a.size + 1 := by
  simp [intern, h, size]

/-- Interning keeps names distinct. -/
theorem nodup_intern {a : Alphabet} (h : a.names.Nodup) (name : String) :
    (a.intern name).names.Nodup := by
  unfold intern
  split
  · exact h
  · next hn =>
    rw [List.nodup_append]
    refine ⟨h, by simp, ?_⟩
    intro x hx y hy hxy
    rw [List.mem_singleton] at hy
    exact hn (hy ▸ hxy ▸ hx)

end Alphabet

end PredictiveFrontend

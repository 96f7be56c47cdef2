import PredictiveFrontend.Number.Binary64

/-!
# What a bare word reads as

A word without quotes in a YAML text can be read as nothing, as a truth value or as a number; only
else it is a text. A number with needless leading zeros is a text to some readers and a number to
others, so it counts as ambiguous here.
-/

namespace PredictiveFrontend

open Text

namespace PlainScalar

/-- The words that stand for nothing. -/
def nulls : List String := ["", "~", "null", "Null", "NULL"]

/-- The words that stand for a truth value. -/
def booleans : List String := ["true", "True", "TRUE", "false", "False", "FALSE"]

/-- The words that stand for a number that no digits can write. -/
def specialFloats : List String :=
  [".inf", ".Inf", ".INF", "+.inf", "+.Inf", "+.INF", "-.inf", "-.Inf", "-.INF",
   ".nan", ".NaN", ".NAN"]

/-- A number with leading zeros, with a sign or without. -/
def hasLeadingZeros (word : List Char) : Bool :=
  match (Decimal.splitSign word).2 with
  | '0' :: rest => !rest.isEmpty && rest.all Char.isDigit
  | _ => false

/-- A whole number without a sign in base ten, or behind a mark in base sixteen, eight or two. -/
def magnitude? : List Char → Option Nat
  | '0' :: 'x' :: digits => numberOfDigits? 16 digits
  | '0' :: 'o' :: digits => numberOfDigits? 8 digits
  | '0' :: 'b' :: digits => numberOfDigits? 2 digits
  | digits => numberOfDigits? 10 digits

/-- Whether a word is a whole number of at most 128 bits. -/
def isInteger (word : List Char) : Bool :=
  let (negative, digits) := Decimal.splitSign word
  match magnitude? digits with
  | some n => n ≤ if negative then Nat.pow 2 127 else Nat.pow 2 128 - 1
  | none => false

/-- Whether a word is a finite decimal number. -/
def isFloat (word : List Char) : Bool :=
  match Decimal.ofText? word with
  | some d => (Binary64.ofDecimal d).isFinite
  | none => false

/-- Whether a word can be read as something other than a text. -/
def isAmbiguous (word : String) : Bool :=
  word ∈ nulls || word ∈ booleans || word ∈ specialFloats || hasLeadingZeros word.toList ||
    isInteger word.toList || isFloat word.toList

end PlainScalar

end PredictiveFrontend

import PredictiveFrontend.Text.Hexadecimal

/-!
# Decimals

A decimal is written as digits with a point anywhere among them or at one of their ends, a sign in
front if wanted and an exponent of ten behind if wanted.
-/

namespace PredictiveFrontend

open Text

/-- A decimal: digits as one natural number, scaled by a power of ten. -/
structure Decimal where
  negative : Bool
  digits : Nat
  exponent : Int
  deriving DecidableEq, Repr

namespace Decimal

/-- A sign in front of a text, and the text behind it. -/
def splitSign : List Char → Bool × List Char
  | '-' :: rest => (true, rest)
  | '+' :: rest => (false, rest)
  | text => (false, text)

/-- The exponent behind the digits of a decimal. -/
def exponentOf? : List Char → Option Int
  | [] => some 0
  | c :: rest =>
    if c = 'e' ∨ c = 'E' then
      let (negative, digits) := splitSign rest
      (numberOfDigits? 10 digits).map fun n => if negative then -(n : Int) else n
    else none

/-- Read a decimal; there has to be a digit on one side of the point at least. -/
def ofText? (text : List Char) : Option Decimal :=
  let (negative, text) := splitSign text
  let whole := text.takeWhile Char.isDigit
  let behind := text.dropWhile Char.isDigit
  let (places, behind) :=
    match behind with
    | '.' :: rest => (rest.takeWhile Char.isDigit, rest.dropWhile Char.isDigit)
    | _ => ([], behind)
  (numberOfDigits? 10 (whole ++ places)).bind fun digits =>
    (exponentOf? behind).map fun exponent => ⟨negative, digits, exponent - places.length⟩

end Decimal

end PredictiveFrontend

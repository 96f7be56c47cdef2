/-!
# Hexadecimal numbers

Numbers written in base sixteen, with as many digits as needed or padded with zeros to a width.
-/

namespace PredictiveFrontend.Text

/-- The digits of a number in base sixteen with lowercase letters, without leading zeros. -/
def lowerHex (n : Nat) : List Char :=
  Nat.toDigits 16 n

/-- The digits of a number in base sixteen with uppercase letters, padded with zeros. -/
def upperHexPadded (width n : Nat) : List Char :=
  let digits := (lowerHex n).map Char.toUpper
  List.replicate (width - digits.length) '0' ++ digits

/-- The digits of a number in base sixteen with lowercase letters, padded with zeros. -/
def lowerHexPadded (width n : Nat) : List Char :=
  let digits := lowerHex n
  List.replicate (width - digits.length) '0' ++ digits

/-- The value of one hexadecimal digit in either case. -/
def hexDigitValue? (c : Char) : Option Nat :=
  if c.isDigit then some (c.toNat - '0'.toNat)
  else if 'a' ≤ c ∧ c ≤ 'f' then some (c.toNat - 'a'.toNat + 10)
  else if 'A' ≤ c ∧ c ≤ 'F' then some (c.toNat - 'A'.toNat + 10)
  else none

/-- The value of a digit in a base up to sixteen. -/
def digitValue? (base : Nat) (c : Char) : Option Nat :=
  (hexDigitValue? c).filter (· < base)

/-- The number that a list of digits writes in a base; none for no digit or a foreign character. -/
def numberOfDigits? (base : Nat) (digits : List Char) : Option Nat :=
  if digits.isEmpty then none
  else digits.foldl
    (fun acc c => acc.bind fun n => (digitValue? base c).map fun d => n * base + d) (some 0)

end PredictiveFrontend.Text

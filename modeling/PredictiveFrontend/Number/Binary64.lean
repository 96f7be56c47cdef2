import PredictiveFrontend.Number.Decimal

/-!
# Binary floating-point numbers of 64 bits

A finite number is a natural number below 2^53 times a power of two, with a sign. A decimal is read
by rounding it to the nearest such number, a tie to the even one. A number is written with the
fewest digits that read back as the same number, and always positionally.
-/

namespace PredictiveFrontend

/-- A binary number of 64 bits; `finite` stands for `significand * 2 ^ exponent`. -/
inductive Binary64 where
  | finite (negative : Bool) (significand : Nat) (exponent : Int)
  | infinity (negative : Bool)
  | nan (negative : Bool)
  deriving DecidableEq, Repr

namespace Binary64

/-- Zero. -/
def zero (negative : Bool) : Binary64 := .finite negative 0 0

/-- Whether the number is neither infinite nor no number. -/
def isFinite : Binary64 → Bool
  | .finite .. => true
  | _ => false

/-- Whether the number is zero, of either sign. -/
def isZero : Binary64 → Bool
  | .finite _ 0 _ => true
  | _ => false

/-- The natural number nearest to a quotient; a tie goes to the even one. -/
def roundQuotient (num den : Nat) : Nat :=
  let q := num / den
  let r := num % den
  if den < 2 * r ∨ (2 * r = den ∧ q % 2 = 1) then q + 1 else q

/-- Numerator and denominator of a quotient times a power of a base. -/
def scale (num den base : Nat) (exponent : Int) : Nat × Nat :=
  if 0 ≤ exponent then (num * Nat.pow base exponent.toNat, den)
  else (num, den * Nat.pow base (-exponent).toNat)

/-- The exponent of the largest power of two that is not above a positive quotient. -/
def floorLog2 (num den : Nat) : Int :=
  let e : Int := (num.log2 : Int) - (den.log2 : Int)
  let (n, d) := scale num den 2 (-e)
  if d ≤ n then e else e - 1

/-- The smallest exponent of a finite number. -/
def leastExponent : Int := -1074

/-- The least significand of numbers with all their digits. -/
def fullSignificand : Nat := Nat.pow 2 52

/-- The number nearest to a positive quotient. -/
def ofQuotient (negative : Bool) (num den : Nat) : Binary64 :=
  let top := floorLog2 num den
  let exponent := max (top - 52) leastExponent
  let (n, d) := scale num den 2 (-exponent)
  let significand := roundQuotient n d
  let (significand, exponent) :=
    if significand = 2 * fullSignificand then (fullSignificand, exponent + 1)
    else (significand, exponent)
  if 971 < exponent then .infinity negative else .finite negative significand exponent

/-- The number of decimal digits. -/
def digitCount (n : Nat) : Nat := (Nat.toDigits 10 n).length

/-- The number nearest to a decimal. Decimals beyond every finite number, or closer to zero than
every other, are told apart by their size, without computing the power of ten. -/
def ofDecimal (d : Decimal) : Binary64 :=
  let size := (digitCount d.digits : Int) + d.exponent
  if d.digits = 0 ∨ size < -330 then zero d.negative
  else if 310 < size then .infinity d.negative
  else
    let (num, den) := scale d.digits 1 10 d.exponent
    ofQuotient d.negative num den

/-- Whether a quotient lies among the values that round to `significand * 2 ^ exponent`. -/
def roundsTo (significand : Nat) (exponent : Int) (num den : Nat) : Bool :=
  let (n, d) := scale num den 2 (-exponent + 2)
  let below := if significand = fullSignificand ∧ leastExponent < exponent then 1 else 2
  let low := (4 * significand - below) * d
  let high := (4 * significand + 2) * d
  if significand % 2 = 0 then low ≤ n && n ≤ high else low < n && n < high

/-- The nearer one of two neighbours on the grid of a power of ten that round to a number. -/
def nearestOnGrid? (significand : Nat) (exponent gridExponent : Int) : Option Nat :=
  let (num, den) := scale significand 1 2 exponent
  let (n, d) := scale num den 10 (-gridExponent)
  let lower := n / d
  let reads (k : Nat) : Bool :=
    let (num, den) := scale k 1 10 gridExponent
    roundsTo significand exponent num den
  match reads lower, reads (lower + 1) with
  | true, true => some (roundQuotient n d)
  | true, false => some lower
  | false, true => some (lower + 1)
  | false, false => none

/-- The digits and the exponent of the shortest decimal that reads back as a positive number; the
grids are tried from the coarsest to the finest. -/
def shortestFrom (significand : Nat) (exponent : Int) : Nat → Int → Nat × Int
  | 0, grid => (significand, grid)
  | tries + 1, grid =>
    match nearestOnGrid? significand exponent grid with
    | some digits => (digits, grid)
    | none => shortestFrom significand exponent tries (grid - 1)

/-- The shortest decimal that reads back as `significand * 2 ^ exponent`. -/
def shortest (significand : Nat) (exponent : Int) : Nat × Int :=
  let (num, den) := scale significand 1 2 exponent
  let size : Int := (digitCount num : Int) - (digitCount den : Int)
  shortestFrom significand exponent 20 (size + 1)

/-- Digits scaled by a power of ten, written without an exponent. -/
def positional (digits : Nat) (exponent : Int) : String :=
  let text := Nat.toDigits 10 digits
  if 0 ≤ exponent then String.ofList (text ++ List.replicate exponent.toNat '0')
  else
    let places := (-exponent).toNat
    let padded := List.replicate (places + 1 - text.length) '0' ++ text
    let whole := padded.length - places
    String.ofList (padded.take whole ++ '.' :: padded.drop whole)

/-- The text of a number. -/
def text : Binary64 → String
  | .nan _ => "NaN"
  | .infinity negative => if negative then "-inf" else "inf"
  | .finite negative significand exponent =>
    let magnitude :=
      if significand = 0 then "0"
      else let (digits, e) := shortest significand exponent; positional digits e
    if negative then "-" ++ magnitude else magnitude

end Binary64

end PredictiveFrontend

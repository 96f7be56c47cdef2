import PredictiveFrontend.Settings.Value
import PredictiveFrontend.Text.Hexadecimal
import PredictiveFrontend.Text.Reader

/-!
# Numbers, dates and times in TOML

Single underscores may stand between the digits of a number. A whole number has no leading zeros in
base ten, or a mark in front for another base, and fits into 64 bits. Dates and times are kept as
their texts.
-/

namespace PredictiveFrontend.Toml

open Text TextReader

/-- Digits of a class, with single underscores between them, which are left out. -/
def digits (p : Char → Bool) : TextReader (List Char) := do
  let groups ← separated (do
    let ds ← takeWhile p
    if ds.isEmpty then failure else return ds) (word "_")
  return groups.flatten

/-- A sign in front of a number. -/
def sign : TextReader (List Char) := do
  match ← peek with
  | some '+' => let _ ← next; return ['+']
  | some '-' => let _ ← next; return ['-']
  | _ => return []

/-- A whole number in base ten: a sign and digits without needless zeros. -/
def wholeDigits : TextReader (List Char × List Char) := do
  let s ← sign
  if (← peek) = some '0' then
    let c ← next
    return (s, [c])
  else
    let ds ← digits Char.isDigit
    return (s, ds)

/-- A whole number of 64 bits. -/
def integerOf? (negative : Bool) (magnitude : Nat) : Option SettingValue :=
  let bound := Nat.pow 2 63
  if negative then if magnitude ≤ bound then some (.integer (Int.negOfNat magnitude)) else none
  else if magnitude < bound then some (.integer (Int.ofNat magnitude)) else none

/-- A whole number behind the mark of its base. -/
def basedInteger (mark : String) (base : Nat) : TextReader SettingValue := do
  word mark
  let ds ← digits fun c => (digitValue? base c).isSome
  match (numberOfDigits? base ds).bind (integerOf? false) with
  | some v => return v
  | none => failure

/-- A whole number in base ten. -/
def integer : TextReader SettingValue := do
  let (s, ds) ← wholeDigits
  match (numberOfDigits? 10 ds).bind (integerOf? (s = ['-'])) with
  | some v => return v
  | none => failure

/-- The decimals behind the point of a number. -/
def decimals : TextReader (List Char) := do
  word "."
  let ds ← digits Char.isDigit
  return '.' :: ds

/-- The exponent behind a number. -/
def exponent : TextReader (List Char) := do
  let e ← one fun c => c == 'e' || c == 'E'
  let s ← sign
  let ds ← digits Char.isDigit
  return e :: s ++ ds

/-- A number with decimals, an exponent or both. One that is too large is refused. -/
def decimalFloat : TextReader SettingValue := do
  let (s, whole) ← wholeDigits
  let places ← optional? decimals
  let power ← optional? exponent
  if places.isNone ∧ power.isNone then failure
  else
    match Decimal.ofText? (s ++ whole ++ places.getD [] ++ power.getD []) with
    | some d =>
      let x := Binary64.ofDecimal d
      if x = .infinity false then failure else return .float x
    | none => failure

/-- Infinity or no number, with a sign if wanted. -/
def specialFloat : TextReader SettingValue := do
  let s ← sign
  if ← skips "inf" then return .float (.infinity (s = ['-']))
  else
    word "nan"
    return .float (.nan (s = ['-']))

/-- A number of two digits between two bounds. -/
def twoDigits (low high : Nat) : TextReader (List Char) := do
  let ds ← exactly 2 Char.isDigit
  match numberOfDigits? 10 ds with
  | some n => if low ≤ n ∧ n ≤ high then return ds else failure
  | none => failure

/-- The number of days of a month. -/
def daysIn (year month : Nat) : Nat :=
  if month = 2 then
    if year % 4 = 0 ∧ (year % 100 ≠ 0 ∨ year % 400 = 0) then 29 else 28
  else if month ∈ [4, 6, 9, 11] then 30 else 31

/-- A date. -/
def date : TextReader (List Char) := do
  let year ← exactly 4 Char.isDigit
  word "-"
  let month ← twoDigits 1 12
  word "-"
  let days := daysIn ((numberOfDigits? 10 year).getD 0) ((numberOfDigits? 10 month).getD 0)
  let day ← twoDigits 1 days
  return year ++ '-' :: month ++ '-' :: day

/-- The fraction of a second, at most nine digits of it and without zeros at its end. -/
def fraction : TextReader (List Char) := do
  word "."
  let ds ← takeWhile Char.isDigit
  if ds.isEmpty then failure
  let kept := ((ds.take 9).reverse.dropWhile (· == '0')).reverse
  return if kept.isEmpty then [] else '.' :: kept

/-- A time of day. -/
def time : TextReader (List Char) := do
  let hour ← twoDigits 0 23
  word ":"
  let minute ← twoDigits 0 59
  word ":"
  let second ← twoDigits 0 60
  let rest ← if (← peek) = some '.' then fraction else pure []
  return hour ++ ':' :: minute ++ ':' :: second ++ rest

/-- The distance of a time from universal time. -/
def offset : TextReader (List Char) := do
  match ← peek with
  | some 'Z' | some 'z' => let _ ← next; return ['Z']
  | some '+' | some '-' =>
    let s ← next
    let hour ← twoDigits 0 23
    word ":"
    let minute ← twoDigits 0 59
    let s := if hour = ['0', '0'] ∧ minute = ['0', '0'] then '+' else s
    return s :: hour ++ ':' :: minute
  | _ => return []

/-- A time behind a date. -/
def timeBehindDate : TextReader (List Char) := do
  let _ ← one fun c => c == 'T' || c == 't' || c == ' '
  let t ← time
  let o ← offset
  return 'T' :: t ++ o

/-- A date, a time, or both. -/
def dateTime : TextReader SettingValue := do
  match ← optional? date with
  | some d =>
    let t ← optional? timeBehindDate
    return .text (String.ofList (d ++ t.getD []))
  | none =>
    let t ← time
    return .text (String.ofList t)

/-- A number, a date or a time. -/
def number : TextReader SettingValue :=
  dateTime <|> decimalFloat <|> specialFloat <|> basedInteger "0x" 16 <|> basedInteger "0o" 8 <|>
    basedInteger "0b" 2 <|> integer

end PredictiveFrontend.Toml

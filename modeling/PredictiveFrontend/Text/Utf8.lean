/-!
# Text from bytes

Bytes are read as UTF-8, either strictly, so that one wrong byte spoils the text, or leniently: then
every longest piece that begins a character without completing it, and every byte that begins none,
stands for the replacement character.
-/

namespace PredictiveFrontend.Text

/-- The text of bytes that are valid throughout. -/
def decode? (bytes : List UInt8) : Option String :=
  String.fromUTF8? bytes.toByteArray

/-- A character that is not complete. -/
structure PartialChar where
  /-- The bits read so far. -/
  bits : Nat
  /-- How many bytes are missing. -/
  missing : Nat
  /-- The smallest byte that can come next. -/
  low : Nat
  /-- The largest byte that can come next. -/
  high : Nat
  deriving DecidableEq, Repr

namespace PartialChar

/-- The character that a byte begins, if it begins one of several bytes. -/
def ofByte? (b : Nat) : Option PartialChar :=
  if 0xC2 ≤ b ∧ b ≤ 0xDF then some ⟨b - 0xC0, 1, 0x80, 0xBF⟩
  else if 0xE0 ≤ b ∧ b ≤ 0xEF then
    some ⟨b - 0xE0, 2, if b = 0xE0 then 0xA0 else 0x80, if b = 0xED then 0x9F else 0xBF⟩
  else if 0xF0 ≤ b ∧ b ≤ 0xF4 then
    some ⟨b - 0xF0, 3, if b = 0xF0 then 0x90 else 0x80, if b = 0xF4 then 0x8F else 0xBF⟩
  else none

/-- The character with one more byte. -/
def push (p : PartialChar) (b : Nat) : PartialChar :=
  ⟨p.bits * 64 + (b - 0x80), p.missing - 1, 0x80, 0xBF⟩

/-- Whether a byte can come next. -/
def accepts (p : PartialChar) (b : Nat) : Bool :=
  p.low ≤ b && b ≤ p.high

end PartialChar

/-- What stands for bytes that are no character. -/
def replacement : Char := '\ufffd'

/-- A byte outside every unfinished character: what it stands for, and what it begins. -/
def freshByte (b : Nat) : List Char × Option PartialChar :=
  if b < 0x80 then ([Char.ofNat b], none)
  else match PartialChar.ofByte? b with
    | some p => ([], some p)
    | none => ([replacement], none)

/-- The characters of bytes behind an unfinished character. -/
def lenientFrom (unfinished : Option PartialChar) : List UInt8 → List Char
  | [] => if unfinished.isSome then [replacement] else []
  | byte :: rest =>
    let b := byte.toNat
    match unfinished with
    | none =>
      let (written, begun) := freshByte b
      written ++ lenientFrom begun rest
    | some p =>
      if p.accepts b then
        let p := p.push b
        if p.missing = 0 then Char.ofNat p.bits :: lenientFrom none rest
        else lenientFrom (some p) rest
      else
        let (written, begun) := freshByte b
        replacement :: written ++ lenientFrom begun rest

/-- The text of any bytes. -/
def decodeLenient (bytes : List UInt8) : String :=
  String.ofList (lenientFrom none bytes)

end PredictiveFrontend.Text

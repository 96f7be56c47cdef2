import PredictiveFrontend.Text.Hexadecimal
import PredictiveFrontend.Text.Printable

/-!
# Quoted text

Text shown inside a message stands between double quotes. The quote, the backslash and the usual
controls are escaped by a letter; any other character that cannot be read on its own is written by
its code point.
-/

namespace PredictiveFrontend.Text

/-- A character inside double quotes. -/
def quotedChar (c : Char) : List Char :=
  if c = '\x00' then ['\\', '0']
  else if c = '\t' then ['\\', 't']
  else if c = '\r' then ['\\', 'r']
  else if c = '\n' then ['\\', 'n']
  else if c = '\\' ∨ c = '"' then ['\\', c]
  else if isGraphemeExtender c || !isPrintable c then
    ['\\', 'u', '\x7b'] ++ lowerHex c.toNat ++ ['\x7d']
  else [c]

/-- A text between double quotes, with what cannot be read escaped. -/
def quoted (text : String) : String :=
  String.ofList ('"' :: text.toList.flatMap quotedChar ++ ['"'])

/-- A list of texts, each quoted, between brackets. -/
def quotedList (texts : List String) : String :=
  "[" ++ String.intercalate ", " (texts.map quoted) ++ "]"

end PredictiveFrontend.Text

/-!
# Documents

A document is what a report consists of before it is written: numbers, texts, lists, and records
whose fields keep their order.
-/

namespace PredictiveFrontend

/-- A value that can be written in several notations. -/
inductive Document where
  | null
  | nat (n : Nat)
  | text (s : String)
  | list (items : List Document)
  | record (fields : List (String × Document))
  deriving Repr

namespace Document

instance : Inhabited Document := ⟨null⟩

/-- A text that may be missing. -/
def ofText? : Option String → Document
  | some s => text s
  | none => null

/-- A number that may be missing. -/
def ofNat? : Option Nat → Document
  | some n => nat n
  | none => null

/-- A list of texts. -/
def ofTexts (texts : List String) : Document :=
  list (texts.map text)

end Document

end PredictiveFrontend

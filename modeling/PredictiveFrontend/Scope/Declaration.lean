/-!
# Declarations

A declaration gives a name to a value, a parameter, a function or a class, at a place of the source.
Its type may stay open, and for a function it is the type of the result. A second declaration of a
name in one scope is refused with the line of the first one.
-/

namespace PredictiveFrontend

/-- What a declaration declares. -/
inductive DeclarationKind where
  | val
  | var
  | parameter
  | function
  | class_
  deriving DecidableEq, Repr, Inhabited

namespace DeclarationKind

/-- The word in front of a declaration in a listing. -/
def keyword : DeclarationKind → String
  | .val => "val"
  | .var => "var"
  | .parameter => "param"
  | .function => "fun"
  | .class_ => "class"

/-- The name of the kind. -/
def name : DeclarationKind → String
  | .val => "Val"
  | .var => "Var"
  | .parameter => "Parameter"
  | .function => "Function"
  | .class_ => "Class"

end DeclarationKind

/-- A name declared at a place of the source. -/
structure Declaration where
  name : String
  kind : DeclarationKind
  /-- The type, for a function that of its result; it may be left out. -/
  typeName : Option String
  line : Nat
  column : Nat
  deriving DecidableEq, Repr, Inhabited

namespace Declaration

/-- The declaration in one line. -/
def render (d : Declaration) : String :=
  d.kind.keyword ++ " " ++ d.name ++
    (match d.typeName with
      | some typeName => ": " ++ typeName
      | none => "") ++
    s!" [{d.column},{d.line}]"

end Declaration

/-- A second declaration of a name in one scope. -/
structure DuplicateDeclaration where
  name : String
  line : Nat
  column : Nat
  /-- The line of the first declaration. -/
  previousLine : Nat
  deriving DecidableEq, Repr, Inhabited

namespace DuplicateDeclaration

/-- The text of the refusal. -/
def message (d : DuplicateDeclaration) : String :=
  s!"'{d.name}' at line {d.line}, column {d.column} is already declared at line {d.previousLine}"

end DuplicateDeclaration

end PredictiveFrontend

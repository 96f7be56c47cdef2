import PredictiveFrontend.Scope.Declaration

/-!
# Diagnostics

What is wrong with the names and braces of a source. A diagnostic never stops the reading.
-/

namespace PredictiveFrontend

/-- Something wrong with a name or a brace, with the place it is reported at. -/
inductive Diagnostic where
  /-- A name that no open scope declares. -/
  | unresolved (name : String) (line column : Nat)
  /-- A name declared twice in one scope. -/
  | duplicate (d : DuplicateDeclaration)
  /-- A closing brace without an open scope to close. -/
  | unbalancedBrace (line column : Nat)
  /-- A scope that is open at the end. -/
  | unclosedScope (name : String) (line column : Nat)
  deriving DecidableEq, Repr

namespace Diagnostic

/-- The name of the kind of a diagnostic. -/
def kindName : Diagnostic → String
  | .unresolved .. => "Unresolved"
  | .duplicate .. => "Duplicate"
  | .unbalancedBrace .. => "UnbalancedBrace"
  | .unclosedScope .. => "UnclosedScope"

/-- The text of a diagnostic. -/
def message : Diagnostic → String
  | .unresolved name .. => s!"unresolved reference '{name}'"
  | .duplicate d => d.message
  | .unbalancedBrace .. => "'\x7d' without a matching '\x7b'"
  | .unclosedScope name .. => s!"scope '{name}' is never closed"

/-- The line of a diagnostic. -/
def line : Diagnostic → Nat
  | .unresolved _ line _ | .unbalancedBrace line _ | .unclosedScope _ line _ => line
  | .duplicate d => d.line

/-- The column of a diagnostic. -/
def column : Diagnostic → Nat
  | .unresolved _ _ column | .unbalancedBrace _ column | .unclosedScope _ _ column => column
  | .duplicate d => d.column

/-- The diagnostic in one line. -/
def render (d : Diagnostic) : String :=
  s!"[{d.column},{d.line}] {d.kindName}: {d.message}"

end Diagnostic

end PredictiveFrontend

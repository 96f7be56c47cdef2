import PredictiveFrontend.Scope.Declaration

/-!
# Trees of scopes

Scopes are numbered in the order in which they are opened; scope 0 is the global one. A scope
remembers the scope in which it was opened, and its children are the later scopes that remember it.
Of all scopes those around the current place are open: the current scope, the one it was opened in,
and so on to the global scope. Names are declared in the current scope and looked up in the open
scopes, innermost first; a closed scope is never opened again.
-/

namespace PredictiveFrontend

/-- What a scope belongs to. -/
inductive ScopeKind where
  | global
  | class_
  | function
  | block
  deriving DecidableEq, Repr, Inhabited

namespace ScopeKind

/-- The name of the kind. -/
def name : ScopeKind → String
  | .global => "Global"
  | .class_ => "Class"
  | .function => "Function"
  | .block => "Block"

end ScopeKind

/-- A scope with the names declared in it. -/
structure Scope where
  name : String
  kind : ScopeKind
  /-- The number of the scope in which this one was opened; the global scope has none. -/
  parent : Option Nat
  /-- The declarations in order. -/
  declarations : List Declaration
  deriving DecidableEq, Repr

namespace Scope

/-- The scope around everything, before anything is declared in it. -/
def outermost : Scope := ⟨"global", .global, none, []⟩

instance : Inhabited Scope := ⟨outermost⟩

/-- The declaration of a name in a scope. -/
def find? (s : Scope) (name : String) : Option Declaration :=
  s.declarations.find? (·.name == name)

/-- The scope with one more declaration. -/
def declare (s : Scope) (d : Declaration) : Scope :=
  { s with declarations := s.declarations ++ [d] }

/-- The scope with a type given to the first declaration of a name. -/
def setType (s : Scope) (name typeName : String) : Scope :=
  match s.declarations.findIdx? (·.name == name) with
  | some i =>
    { s with
      declarations := s.declarations.modify i fun d => { d with typeName := some typeName } }
  | none => s

end Scope

/-- Why an operation on a tree of scopes is refused. -/
inductive ScopeError where
  /-- The global scope cannot be closed. -/
  | closeGlobal
  /-- The name is declared in the current scope already. -/
  | duplicate (d : DuplicateDeclaration)
  deriving DecidableEq, Repr

namespace ScopeError

/-- The text of a refusal. -/
def message : ScopeError → String
  | .closeGlobal => "cannot close the global scope"
  | .duplicate d => d.message

end ScopeError

/-- All scopes opened so far, and those that are open. -/
structure ScopeTree where
  /-- The scopes in the order of their numbers. -/
  scopes : List Scope
  /-- The number of the current scope. -/
  cursor : Nat
  /-- The numbers of the open scopes around the current one, innermost first. -/
  outer : List Nat
  deriving DecidableEq, Repr

namespace ScopeTree

/-- The tree with nothing but the global scope. -/
def initial : ScopeTree := ⟨[.outermost], 0, []⟩

instance : Inhabited ScopeTree := ⟨initial⟩

/-- The number of scopes. -/
def size (t : ScopeTree) : Nat := t.scopes.length

/-- The scope of a number; a number that is too large has an empty global scope. -/
def scope (t : ScopeTree) (number : Nat) : Scope :=
  t.scopes[number]?.getD .outermost

/-- The current scope. -/
def current (t : ScopeTree) : Scope := t.scope t.cursor

/-- The numbers of the open scopes, innermost first. -/
def openScopes (t : ScopeTree) : List Nat := t.cursor :: t.outer

/-- The numbers of the scopes opened in a scope, in order. -/
def children (t : ScopeTree) (number : Nat) : List Nat :=
  (List.range' (number + 1) (t.size - (number + 1))).filter fun child =>
    (t.scope child).parent == some number

/-- Open a scope in the current one; it becomes the current one. -/
def openScope (t : ScopeTree) (name : String) (kind : ScopeKind) : ScopeTree :=
  ⟨t.scopes ++ [⟨name, kind, some t.cursor, []⟩], t.size, t.openScopes⟩

/-- Close the current scope; the one around it becomes the current one. -/
def closeScope (t : ScopeTree) : Except ScopeError ScopeTree :=
  match t.outer with
  | [] => .error .closeGlobal
  | parent :: outer => .ok { t with cursor := parent, outer := outer }

/-- To close a scope leaves fewer of them open. -/
theorem length_outer_lt_of_closeScope {t t' : ScopeTree} (h : t.closeScope = .ok t') :
    t'.outer.length < t.outer.length := by
  rw [closeScope] at h
  split at h <;> cases h
  next houter =>
    rw [houter]
    exact Nat.lt_succ_self _

/-- Declare a name in the current scope, where it must be new. -/
def declare (t : ScopeTree) (d : Declaration) : Except ScopeError ScopeTree :=
  match t.current.find? d.name with
  | some previous => .error (.duplicate ⟨d.name, d.line, d.column, previous.line⟩)
  | none => .ok { t with scopes := t.scopes.modify t.cursor (·.declare d) }

/-- Give a type to a name declared in any scope; nothing changes if the scope has no such name. -/
def setType (t : ScopeTree) (number : Nat) (name typeName : String) : ScopeTree :=
  { t with scopes := t.scopes.modify number (·.setType name typeName) }

/-- The innermost open scope that declares a name, and the declaration. -/
def resolve? (t : ScopeTree) (name : String) : Option (Nat × Declaration) :=
  t.openScopes.findSome? fun number => ((t.scope number).find? name).map (number, ·)

theorem lt_of_mem_children {t : ScopeTree} {number child : Nat} (h : child ∈ t.children number) :
    number < child ∧ child < t.size := by
  simp only [children, List.mem_filter, List.mem_range'_1] at h
  omega

/-- The lines of a scope and of the scopes below it, with a margin that grows with the depth. -/
def outlineFrom (t : ScopeTree) (depth number : Nat) : List String :=
  let margin := String.join (List.replicate depth "  ")
  let scope := t.scope number
  (margin ++ s!"#{number} " ++ scope.kind.name ++ " " ++ scope.name) ::
    scope.declarations.map (fun d => margin ++ "  " ++ d.render) ++
    (t.children number).attach.flatMap fun child => outlineFrom t (depth + 1) child.1
termination_by t.size - number
decreasing_by
  have := lt_of_mem_children child.2
  omega

/-- The lines of all scopes, every scope in front of the ones below it. -/
def outline (t : ScopeTree) : List String :=
  t.outlineFrom 0 0

/-- The outline as a text. -/
def render (t : ScopeTree) : String :=
  String.join (t.outline.map (· ++ "\n"))

end ScopeTree

end PredictiveFrontend

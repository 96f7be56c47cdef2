import PredictiveFrontend.Token.Basic

/-!
# Tokens and their owners

Every class and every function with a body owns the tokens of its body. A header reaches from
`class` or `fun` to the next opening brace; it is owned by nobody, and neither are that brace and
the one that closes it. A header without a body falls to the owner around it. All other braces are
ordinary tokens, and the tokens outside every body are owned by the top level.
-/

namespace PredictiveFrontend

/-- What can own tokens. -/
inductive OwnerKind where
  | topLevel
  | class_
  | function
  deriving DecidableEq, Repr, Inhabited

namespace OwnerKind

/-- The name of the kind. -/
def name : OwnerKind → String
  | .topLevel => "TopLevel"
  | .class_ => "Class"
  | .function => "Function"

end OwnerKind

/-- An owner of tokens. -/
structure Owner where
  kind : OwnerKind
  name : String
  deriving DecidableEq, Repr, Inhabited

namespace Owner

/-- The owner of what is outside every body. -/
def topLevel : Owner := ⟨.topLevel, "<top-level>"⟩

/-- The name of an owner whose header holds none. -/
def anonymous : String := "<anonymous>"

end Owner

/-- An owner with its tokens in order. -/
structure Partition where
  owner : Owner
  tokens : List Token
  deriving DecidableEq, Repr, Inhabited

namespace Partition

/-- The owner, and one line for every token. -/
def render (p : Partition) : String :=
  p.owner.kind.name ++ " " ++ p.owner.name ++ "\n" ++
    String.join (p.tokens.map fun t => "  " ++ t.render ++ "\n")

end Partition

namespace Ownership

/-- An open brace. -/
inductive Brace where
  /-- The brace of the body of the owner of a number. -/
  | body (owner : Nat)
  /-- Any other brace. -/
  | block
  deriving DecidableEq, Repr

/-- A header whose body has not begun. -/
structure Header where
  kind : OwnerKind
  /-- The first name in the header. -/
  name : Option String
  tokens : List Token
  deriving DecidableEq, Repr

namespace Header

/-- The header with one more token. -/
def push (h : Header) (t : Token) : Header :=
  { h with
    name := h.name.or (if t.kind = .identifier then some t.lexeme else none)
    tokens := h.tokens ++ [t] }

/-- The owner that a header announces. -/
def owner (h : Header) : Owner :=
  ⟨h.kind, h.name.getD Owner.anonymous⟩

end Header

/-- How far the tokens have been assigned. -/
structure State where
  /-- The owners in the order of their bodies; the top level is the first. -/
  owners : List Owner
  /-- The open braces, innermost first. -/
  braces : List Brace
  /-- The header being read. -/
  header : Option Header
  /-- The tokens assigned so far, each with the number of its owner if it has one. -/
  assigned : List (Option Nat × Token)
  deriving DecidableEq, Repr

namespace State

/-- Nothing is assigned and nothing is open. -/
def initial : State := ⟨[.topLevel], [], none, []⟩

/-- The number of the innermost owner whose body is open. -/
def currentOwner (s : State) : Nat :=
  (s.braces.findSome? fun
    | .body owner => some owner
    | .block => none).getD 0

/-- Assign tokens to an owner or to nobody. -/
def assign (s : State) (owner : Option Nat) (tokens : List Token) : State :=
  { s with assigned := s.assigned ++ tokens.map (owner, ·) }

/-- Close the innermost brace. A stray closing brace is an ordinary token. -/
def close (s : State) (t : Token) : State :=
  match s.braces with
  | .body _ :: braces => { s.assign none [t] with braces }
  | .block :: braces => { s.assign s.currentOwner [t] with braces }
  | [] => s.assign s.currentOwner [t]

/-- Give the tokens of a header without a body to the owner around it. -/
def giveBack (s : State) : State :=
  match s.header with
  | some header => { s.assign s.currentOwner header.tokens with header := none }
  | none => s

/-- Read a token inside a header. -/
def readHeader (s : State) (header : Header) (t : Token) : State :=
  match t.kind with
  | .openCurly =>
    { s.assign none (header.tokens ++ [t]) with
      owners := s.owners ++ [header.owner]
      braces := .body s.owners.length :: s.braces
      header := none }
  | .closeCurly => s.giveBack.close t
  | _ => { s with header := some (header.push t) }

/-- Read a token outside every header. -/
def readCode (s : State) (t : Token) : State :=
  match t.kind with
  | .classKeyword => { s with header := some ⟨.class_, none, [t]⟩ }
  | .funKeyword => { s with header := some ⟨.function, none, [t]⟩ }
  | .openCurly => { s.assign s.currentOwner [t] with braces := .block :: s.braces }
  | .closeCurly => s.close t
  | _ => s.assign s.currentOwner [t]

/-- Read a significant token. -/
def read (s : State) (t : Token) : State :=
  match s.header with
  | some header => s.readHeader header t
  | none => s.readCode t

/-- The owners with their tokens. -/
def partitions (s : State) : List Partition :=
  s.owners.zipIdx.map fun (owner, i) =>
    ⟨owner, (s.assigned.filter (·.1 == some i)).map Prod.snd⟩

end State

end Ownership

namespace Partition

/-- The partitions of the significant ones of the tokens, the top level first. -/
def ofTokens (tokens : List Token) : List Partition :=
  ((Token.significant tokens).foldl Ownership.State.read .initial).giveBack.partitions

/-- Partitions one after the other. -/
def renderAll (partitions : List Partition) : String :=
  String.join (partitions.map render)

end Partition

end PredictiveFrontend

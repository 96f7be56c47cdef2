import PredictiveFrontend.Scope.Diagnostic
import PredictiveFrontend.Scope.Tree
import PredictiveFrontend.Token.Basic

/-!
# Symbol tables

The declarations of a source are read off its tokens, one token after the other and without a
grammar. The reader knows whether it is in a class header, in a function header, in a declaration
of a value, or in plain code. In plain code braces open and close blocks and names are looked up; a
header opens the scope of its class or function. What does not fit is taken for plain code, and
what is wrong is noted as a diagnostic.
-/

namespace PredictiveFrontend

/-- The function whose header is being read. -/
structure FunctionHeader where
  /-- The scope in which the function is declared. -/
  declaredIn : Nat
  name : String
  deriving DecidableEq, Repr, Inhabited

/-- A name that waits for its type. -/
structure PendingName where
  name : String
  line : Nat
  column : Nat
  deriving DecidableEq, Repr, Inhabited

namespace PendingName

/-- The name that a token spells. -/
def ofToken (t : Token) : PendingName := ⟨t.lexeme, t.line, t.column⟩

/-- The declaration of a name, with its type if it got one. -/
def declaration (p : PendingName) (kind : DeclarationKind) (typeName : Option String) :
    Declaration :=
  ⟨p.name, kind, typeName, p.line, p.column⟩

end PendingName

/-- What the reader is in the middle of. -/
inductive ReadingState where
  /-- Plain code. -/
  | code
  /-- Behind `class`. -/
  | className
  /-- Behind the name of a class, in front of its brace. -/
  | classHeader (name : String)
  /-- Behind `fun`. -/
  | functionName
  /-- Behind the name of a function, in front of its parameters. -/
  | parameterList (header : FunctionHeader)
  /-- Between parameters. -/
  | parameterName (header : FunctionHeader)
  /-- Behind the name of a parameter. -/
  | parameterType (header : FunctionHeader) (name : PendingName)
  /-- Behind the parameters of a function, in front of its brace. -/
  | returnType (header : FunctionHeader)
  /-- Behind `val` or `var`. -/
  | declarationName (kind : DeclarationKind)
  /-- Behind the name of a value. -/
  | declarationType (kind : DeclarationKind) (name : PendingName)
  deriving DecidableEq, Repr, Inhabited

/-- The scopes of a source and what is wrong with them. -/
structure SymbolTable where
  scopes : ScopeTree
  /-- The diagnostics in the order in which they were noted. -/
  diagnostics : List Diagnostic
  deriving DecidableEq, Repr, Inhabited

namespace SymbolTable

/-- The outline of the scopes, and one line for every diagnostic. -/
def render (t : SymbolTable) : String :=
  t.scopes.render ++ String.join (t.diagnostics.map (·.render ++ "\n"))

end SymbolTable

/-- A reader between two tokens. -/
structure SymbolReader where
  state : ReadingState
  scopes : ScopeTree
  diagnostics : List Diagnostic
  /-- The line of the last token. -/
  lastLine : Nat
  /-- The column behind the last token. -/
  lastColumn : Nat
  deriving DecidableEq, Repr

namespace SymbolReader

/-- The reader in front of a source. -/
def initial : SymbolReader := ⟨.code, .initial, [], 0, 0⟩

instance : Inhabited SymbolReader := ⟨initial⟩

/-- The reader in another state. -/
def enter (r : SymbolReader) (state : ReadingState) : SymbolReader :=
  { r with state }

/-- Note a diagnostic. -/
def note (r : SymbolReader) (d : Diagnostic) : SymbolReader :=
  { r with diagnostics := r.diagnostics ++ [d] }

/-- Open a scope. -/
def openScope (r : SymbolReader) (name : String) (kind : ScopeKind) : SymbolReader :=
  { r with scopes := r.scopes.openScope name kind }

/-- Declare a name in the current scope; a name that is there already is noted. -/
def declare (r : SymbolReader) (d : Declaration) : SymbolReader :=
  match r.scopes.declare d with
  | .ok scopes => { r with scopes }
  | .error (.duplicate e) => r.note (.duplicate e)
  | .error .closeGlobal => r

/-- Close the current scope at a closing brace. -/
def closeAt (r : SymbolReader) (t : Token) : SymbolReader :=
  match r.scopes.closeScope with
  | .ok scopes => { r with scopes }
  | .error _ => r.note (.unbalancedBrace t.line t.column)

/-- Look up a name in the open scopes. -/
def lookUp (r : SymbolReader) (t : Token) : SymbolReader :=
  if (r.scopes.resolve? t.lexeme).isSome then r
  else r.note (.unresolved t.lexeme t.line t.column)

/-- Read a token in plain code. -/
def readCode (r : SymbolReader) (t : Token) : SymbolReader :=
  match t.kind with
  | .classKeyword => r.enter .className
  | .funKeyword => r.enter .functionName
  | .valKeyword => r.enter (.declarationName .val)
  | .varKeyword => r.enter (.declarationName .var)
  | .openCurly => (r.openScope "block" .block).enter .code
  | .closeCurly => (r.closeAt t).enter .code
  | .identifier => (r.lookUp t).enter .code
  | _ => r.enter .code

/-- Read a token between the parameters of a function and its body. The scope of the function is
open already, so the brace of the body opens no other. -/
def readReturnType (r : SymbolReader) (header : FunctionHeader) (t : Token) : SymbolReader :=
  if t.kind.isType then
    { r with
      state := .returnType header
      scopes := r.scopes.setType header.declaredIn header.name t.lexeme }
  else
    match t.kind with
    | .colon => r.enter (.returnType header)
    | .openCurly => r.enter .code
    | _ => r.readCode t

/-- Read the name of a function and open its scope. -/
def readFunctionName (r : SymbolReader) (t : Token) : SymbolReader :=
  let header : FunctionHeader := ⟨r.scopes.cursor, t.lexeme⟩
  ((r.declare ((PendingName.ofToken t).declaration .function none)).openScope t.lexeme .function)
    |>.enter (.parameterList header)

/-- Read a token behind the name of a parameter. -/
def readParameterType (r : SymbolReader) (header : FunctionHeader) (name : PendingName)
    (t : Token) : SymbolReader :=
  if t.kind.isType then
    (r.declare (name.declaration .parameter (some t.lexeme))).enter (.parameterName header)
  else
    let untyped := r.declare (name.declaration .parameter none)
    match t.kind with
    | .colon => r
    | .comma => untyped.enter (.parameterName header)
    | .closeParen => untyped.enter (.returnType header)
    | _ => untyped.readReturnType header t

/-- Read a token behind the name of a value. -/
def readDeclarationType (r : SymbolReader) (kind : DeclarationKind) (name : PendingName)
    (t : Token) : SymbolReader :=
  if t.kind.isType then (r.declare (name.declaration kind (some t.lexeme))).enter .code
  else
    match t.kind with
    | .colon => r
    | _ => (r.declare (name.declaration kind none)).readCode t

/-- Read a significant token. -/
def read (r : SymbolReader) (t : Token) : SymbolReader :=
  match r.state with
  | .code => r.readCode t
  | .className =>
    match t.kind with
    | .identifier =>
      (r.declare ((PendingName.ofToken t).declaration .class_ none)).enter (.classHeader t.lexeme)
    | _ => r.readCode t
  | .classHeader name =>
    match t.kind with
    | .openCurly => (r.openScope name .class_).enter .code
    | .closeCurly | .classKeyword | .funKeyword | .valKeyword | .varKeyword => r.readCode t
    | _ => r
  | .functionName =>
    match t.kind with
    | .identifier => r.readFunctionName t
    | _ => r.readCode t
  | .parameterList header =>
    match t.kind with
    | .openParen => r.enter (.parameterName header)
    | _ => r.readReturnType header t
  | .parameterName header =>
    match t.kind with
    | .identifier => r.enter (.parameterType header (.ofToken t))
    | .closeParen => r.enter (.returnType header)
    | .openCurly | .closeCurly => r.readReturnType header t
    | _ => r
  | .parameterType header name => r.readParameterType header name t
  | .returnType header => r.readReturnType header t
  | .declarationName kind =>
    match t.kind with
    | .identifier => r.enter (.declarationType kind (.ofToken t))
    | _ => r.readCode t
  | .declarationType kind name => r.readDeclarationType kind name t

/-- Read a token of any kind; auxiliary tokens are passed over. -/
def step (r : SymbolReader) (t : Token) : SymbolReader :=
  if t.isSignificant then { r with lastLine := t.line, lastColumn := t.endIndex + 1 }.read t else r

/-- Note that the current scope is never closed. -/
def noteUnclosed (r : SymbolReader) : SymbolReader :=
  r.note (.unclosedScope r.scopes.current.name r.lastLine r.lastColumn)

/-- Note and close the scopes that are still open, until the global one is the current one. -/
def closeRemaining (r : SymbolReader) : SymbolReader :=
  if r.scopes.cursor = 0 then r
  else
    match _hclose : r.scopes.closeScope with
    | .ok scopes => closeRemaining { r.noteUnclosed with scopes }
    | .error _ => r.noteUnclosed
termination_by r.scopes.outer.length
decreasing_by exact ScopeTree.length_outer_lt_of_closeScope _hclose

/-- The table at the end of a source. -/
def finish (r : SymbolReader) : SymbolTable :=
  let closed := r.closeRemaining
  ⟨closed.scopes, closed.diagnostics⟩

end SymbolReader

namespace SymbolTable

/-- The symbol table of a list of tokens. -/
def ofTokens (tokens : List Token) : SymbolTable :=
  (tokens.foldl SymbolReader.step .initial).finish

end SymbolTable

end PredictiveFrontend

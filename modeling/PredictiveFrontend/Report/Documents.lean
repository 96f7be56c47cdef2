import PredictiveFrontend.Derivation.Basic
import PredictiveFrontend.Document.Basic
import PredictiveFrontend.Ownership.Partition
import PredictiveFrontend.Scope.SymbolTable
import PredictiveFrontend.Tree.Numbering

/-!
# Documents of results

How tokens, derivations, trees, symbol tables and partitions are laid out as documents.
-/

namespace PredictiveFrontend

open Document

/-- A token as a record. -/
def Token.document (t : Token) : Document :=
  record [("column", nat t.column), ("line", nat t.line), ("end_index", nat t.endIndex),
    ("lexeme", text t.lexeme), ("token_type", text t.kind.name)]

/-- A list of tokens. -/
def Token.documents (tokens : List Token) : Document :=
  list (tokens.map Token.document)

/-- A step of a derivation as a record. -/
def DerivationStep.document (s : DerivationStep) : Document :=
  record [("rule", nat s.rule), ("lhs", text s.lhs), ("rhs", ofTexts s.rhs)]

/-- A derivation as a record. -/
def Derivation.document (d : Derivation) : Document :=
  record [("steps", list (d.steps.map DerivationStep.document)),
    ("tokens_consumed", nat d.tokensConsumed)]

/-- What stands at a node of a tree: a word, or a record with the word as its key. -/
def NodeContent.document : NodeContent → Document
  | .emptyWord => text "Epsilon"
  | .terminal token => record [("Terminal", record [("token", (token.map Token.document).getD null)])]
  | .nonterminal rule => record [("Nonterminal", record [("rule", ofNat? rule)])]

/-- A node of a tree as a record. -/
def NodeRecord.document (r : NodeRecord) : Document :=
  record [("symbol", text r.symbol), ("kind", r.content.document),
    ("children", list (r.children.map nat))]

/-- A tree as the list of its nodes and the number of its root. -/
def ParseTree.document (t : ParseTree) : Document :=
  record [("nodes", list (t.records.map NodeRecord.document)), ("root", nat 0)]

/-- A declaration as a record. -/
def Declaration.document (d : Declaration) : Document :=
  record [("name", text d.name), ("kind", text d.kind.name), ("type_name", ofText? d.typeName),
    ("line", nat d.line), ("column", nat d.column)]

/-- A scope of a tree of scopes as a record. -/
def ScopeTree.scopeDocument (t : ScopeTree) (number : Nat) : Document :=
  let s := t.scope number
  record [("id", nat number), ("name", text s.name), ("kind", text s.kind.name),
    ("parent", ofNat? s.parent), ("children", list ((t.children number).map nat)),
    ("declarations", list (s.declarations.map Declaration.document))]

/-- All scopes of a tree of scopes. -/
def ScopeTree.scopeDocuments (t : ScopeTree) : Document :=
  list ((List.range t.size).map t.scopeDocument)

/-- A diagnostic as a record. -/
def Diagnostic.document (d : Diagnostic) : Document :=
  record [("kind", text d.kindName), ("message", text d.message), ("line", nat d.line),
    ("column", nat d.column)]

/-- A symbol table as a record. -/
def SymbolTable.document (t : SymbolTable) : Document :=
  record [("scopes", record [("scopes", t.scopes.scopeDocuments), ("cursor", nat t.scopes.cursor)]),
    ("diagnostics", list (t.diagnostics.map Diagnostic.document))]

/-- A partition as a record. -/
def Partition.document (p : Partition) : Document :=
  record [("owner", text p.owner.name), ("kind", text p.owner.kind.name),
    ("tokens", Token.documents p.tokens)]

end PredictiveFrontend

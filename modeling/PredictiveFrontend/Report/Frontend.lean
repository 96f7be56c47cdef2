import PredictiveFrontend.Derivation.Machine
import PredictiveFrontend.Document.Json
import PredictiveFrontend.Document.Yaml
import PredictiveFrontend.Grammar.Bundled
import PredictiveFrontend.Report.Documents
import PredictiveFrontend.Report.Kind
import PredictiveFrontend.Token.Scan
import PredictiveFrontend.Tree.Drawing
import PredictiveFrontend.Tree.Replay

/-!
# Reports on sources

A front end holds a compiled grammar and the way in which tokens are parsed. A report on a source
goes as far as its stage needs: symbols and partitions come from the tokens alone, and a report on
the grammar does not look at the source.
-/

namespace PredictiveFrontend

/-- Why there is no report. -/
inductive ReportError where
  /-- No report has the name. -/
  | name (e : ReportNameError)
  /-- The source cannot be read. -/
  | unreadable (path : String) (cause : ReadFailure)
  /-- The source cannot be cut into tokens. -/
  | lexical (e : LexError)
  /-- The grammar does not compile. -/
  | grammar (e : GrammarError)
  /-- The tokens cannot be parsed. -/
  | parse (e : ParseError)
  /-- The derivation does not give a tree. -/
  | tree (e : TreeError)
  deriving DecidableEq, Repr

namespace ReportError

/-- The text of an error. -/
def message : ReportError → String
  | .name e => e.message
  | .unreadable path cause => s!"failed to read {path}: " ++ cause.message
  | .lexical e => "lexical error: " ++ e.message
  | .grammar e => "grammar error: " ++ e.message
  | .parse e => e.message
  | .tree e => "tree error: " ++ e.message

end ReportError

/-- A compiled grammar, and how tokens are parsed with it. -/
structure Frontend where
  grammar : CompiledGrammar
  options : ParseOptions

namespace Frontend

/-- The front end of a grammar text. -/
def ofText (text : String) (compile : CompileOptions) (options : ParseOptions) :
    Except GrammarError Frontend :=
  (CompiledGrammar.ofText text compile).map fun grammar => ⟨grammar, options⟩

/-- The tokens of a source. -/
def tokens (source : String) : Except ReportError (List Token) :=
  (Token.ofSource source).mapError .lexical

/-- The tokens of a source and their derivation. -/
def derivation (f : Frontend) (source : String) : Except ReportError (List Token × Derivation) := do
  let tokens ← tokens source
  let derivation ← (f.grammar.parse f.options tokens).mapError .parse
  return (tokens, derivation)

/-- The parse tree of a source. -/
def tree (f : Frontend) (source : String) : Except ReportError ParseTree := do
  let (tokens, derivation) ← f.derivation source
  (ParseTree.ofDerivation f.grammar derivation tokens).mapError .tree

/-- Tokens, one per line. -/
def tokenLines (tokens : List Token) : String :=
  String.join (tokens.map (·.render ++ "\n"))

/-- The steps of a derivation, one per line. -/
def derivationLines (d : Derivation) : String :=
  if d.steps.isEmpty then "" else d.render ++ "\n"

/-- The text of a report on a source. -/
def report (f : Frontend) (source : String) : Report → Except ReportError String
  | .tokensSimple => (tokens source).map fun ts => tokenLines (Token.significant ts)
  | .tokensJson => (tokens source).map fun ts => (Token.documents (Token.significant ts)).json
  | .tokensYaml => (tokens source).map fun ts => (Token.documents (Token.significant ts)).yaml
  | .allTokensSimple => (tokens source).map tokenLines
  | .allTokensJson => (tokens source).map fun ts => (Token.documents ts).json
  | .derivationSimple => (f.derivation source).map fun (_, d) => derivationLines d
  | .derivationJson => (f.derivation source).map fun (_, d) => d.document.json
  | .derivationYaml => (f.derivation source).map fun (_, d) => d.document.yaml
  | .treeDrawing => (f.tree source).map ParseTree.drawing
  | .treeJson => (f.tree source).map (·.document.json)
  | .symbolsSimple => (tokens source).map fun ts => (SymbolTable.ofTokens ts).render
  | .symbolsJson => (tokens source).map fun ts => (SymbolTable.ofTokens ts).document.json
  | .partitionSimple => (tokens source).map fun ts => Partition.renderAll (Partition.ofTokens ts)
  | .partitionJson =>
    (tokens source).map fun ts =>
      (Document.list ((Partition.ofTokens ts).map Partition.document)).json
  | .grammarSets => .ok (f.grammar.renderRules ++ "\n\n" ++ f.grammar.renderSets)
  | .grammarTable => .ok f.grammar.renderTable

end Frontend

end PredictiveFrontend

import PredictiveFrontend.Files.Folder
import PredictiveFrontend.Main
import PredictiveFrontend.Proofs.Derivation.Fault
import PredictiveFrontend.Proofs.Derivation.Termination
import PredictiveFrontend.Proofs.Grammar.Conflict
import PredictiveFrontend.Proofs.Derivation.GuardedTermination
import PredictiveFrontend.Proofs.Token.Recognition
import PredictiveFrontend.Proofs.Tree.Replay
import PredictiveFrontend.Proofs.Token.Scan
import PredictiveFrontend.Proofs.Grammar.Bundled
import PredictiveFrontend.Proofs.Scope.Reader
import PredictiveFrontend.Proofs.Token.Terminal
import PredictiveFrontend.Proofs.Scope.Forecast
import PredictiveFrontend.Proofs.Scope.Agreement
import PredictiveFrontend.Proofs.Derivation.Restriction
import PredictiveFrontend.Proofs.Derivation.EndOfInput
import PredictiveFrontend.Proofs.Scope.Stack
import PredictiveFrontend.Proofs.Ownership.Headers
import PredictiveFrontend.Proofs.Ownership.Scopes
import PredictiveFrontend.Proofs.Grammar.GuardedFollow
import PredictiveFrontend.Proofs.Grammar.Inheritance
import PredictiveFrontend.Proofs.Derivation.Expected
import PredictiveFrontend.Proofs.Token.BlockComment
import PredictiveFrontend.Proofs.Token.Pieces
import PredictiveFrontend.Proofs.Scope.Duplicate
import PredictiveFrontend.Proofs.Token.Delimiters
import PredictiveFrontend.Proofs.Token.LineComment
import PredictiveFrontend.Proofs.Scope.Header
import PredictiveFrontend.Proofs.Scope.Names
import PredictiveFrontend.Proofs.Derivation.InputStack
import PredictiveFrontend.Proofs.Derivation.Respelling
import PredictiveFrontend.Proofs.Token.Word
import PredictiveFrontend.Proofs.Token.Spacing
import PredictiveFrontend.Proofs.Token.Chunks
import PredictiveFrontend.Proofs.Grammar.Symbols
import PredictiveFrontend.Proofs.Grammar.Reloading
import PredictiveFrontend.Proofs.Grammar.LineFormat
import PredictiveFrontend.Proofs.Text.LineNumber
import PredictiveFrontend.Proofs.Grammar.Loading
import PredictiveFrontend.Proofs.Tree.Labels
import PredictiveFrontend.Proofs.Grammar.Reordering
import PredictiveFrontend.Proofs.Grammar.Recoding
import PredictiveFrontend.Proofs.Derivation.Reordering
import PredictiveFrontend.Proofs.Tree.Refusal
import PredictiveFrontend.Proofs.Tree.Drawing
import PredictiveFrontend.Proofs.Token.Vocabulary
import PredictiveFrontend.Proofs.Scope.Arena
import PredictiveFrontend.Proofs.Tree.Arena

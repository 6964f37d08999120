import SchemaWeave.Command.Folder
import SchemaWeave.Main
import SchemaWeave.Proofs.Document.Absorption
import SchemaWeave.Proofs.Types.Keys
import SchemaWeave.Proofs.Resolving.Naming
import SchemaWeave.Proofs.Resolving.Trace
import SchemaWeave.Proofs.Resolving.Recursion
import SchemaWeave.Proofs.Resolving.Evaluation
import SchemaWeave.Proofs.Resolving.Session
import SchemaWeave.Proofs.Completion.Isolation
import SchemaWeave.Proofs.Completion.Expansion
import SchemaWeave.Proofs.Completion.Registration
import SchemaWeave.Proofs.Completion.Directives
import SchemaWeave.Proofs.Completion.Definitions
import SchemaWeave.Proofs.Completion.Lowering
import SchemaWeave.Proofs.Grammar.Lexemes
import SchemaWeave.Proofs.Grammar.Tokens
import SchemaWeave.Proofs.Grammar.Lexing
import SchemaWeave.Proofs.Grammar.Soundness
import SchemaWeave.Proofs.Grammar.Completeness
import SchemaWeave.Proofs.Resolving.Confinement
import SchemaWeave.Proofs.Resolving.Exposure
import SchemaWeave.Proofs.Schema.Rows
import SchemaWeave.Proofs.Resolving.Listing
import SchemaWeave.Proofs.Document.Canonical
import SchemaWeave.Proofs.Completion.Result
import SchemaWeave.Proofs.Grammar.Data
import SchemaWeave.Proofs.Completion.Data
import SchemaWeave.Proofs.Schema.Faithful
import SchemaWeave.Proofs.Json.RoundTrip
import SchemaWeave.Proofs.Grammar.Calls
import SchemaWeave.Proofs.Completion.Queries
import SchemaWeave.Proofs.Completion.Metadata
import SchemaWeave.Proofs.Resolving.Detection
import SchemaWeave.Proofs.Expr.Spread
import SchemaWeave.Proofs.Resolving.Deepening
import SchemaWeave.Proofs.Resolving.Parameters
import SchemaWeave.Proofs.Resolving.Flattening
import SchemaWeave.Proofs.Completion.Asking
import SchemaWeave.Proofs.Document.Pointwise
import SchemaWeave.Proofs.Comment.Joining
import SchemaWeave.Proofs.Resolving.Walking
import SchemaWeave.Proofs.Grammar.Descent
import SchemaWeave.Proofs.Completion.Words
import SchemaWeave.Proofs.Text.Pieces
import SchemaWeave.Proofs.Types.Lossless
import SchemaWeave.Proofs.Types.Expressions
import SchemaWeave.Proofs.Comment.Indentation
import SchemaWeave.Proofs.Comment.Paragraphs
import SchemaWeave.Proofs.Document.Visits
import SchemaWeave.Proofs.Expr.Lifting
import SchemaWeave.Proofs.Resolving.Embedding
import SchemaWeave.Proofs.Completion.Agreement
import SchemaWeave.Proofs.Types.Tags
import SchemaWeave.Proofs.Completion.Flawless

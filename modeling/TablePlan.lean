import TablePlan.Text.Quoted
import TablePlan.Text.Case
import TablePlan.Text.Blank
import TablePlan.Text.Pieces
import TablePlan.Decimal.Layout
import TablePlan.Decimal.Reading
import TablePlan.Json.Reader
import TablePlan.Json.Writer
import TablePlan.Digest.Sha256
import TablePlan.ColumnSpec.Selection
import TablePlan.Value.Printer
import TablePlan.Value.Exchange
import TablePlan.Kind
import TablePlan.Expr.Children
import TablePlan.Expr.Printer
import TablePlan.Grammar.Call
import TablePlan.Builtin.Standard
import TablePlan.Eval.Basic
import TablePlan.Argument.Peeled
import TablePlan.Argument.Collected
import TablePlan.Function.Basic
import TablePlan.Function.Reference
import TablePlan.Plan.Pipeline
import TablePlan.Service.Routes
import TablePlan.Service.Config
import TablePlan.Service.Logging
import TablePlan.Proofs.Effects
import TablePlan.Proofs.Expr.Traversal
import TablePlan.Proofs.Expr.Places
import TablePlan.Proofs.Expr.Scoping
import TablePlan.Proofs.Eval.Contract
import TablePlan.Proofs.Eval.DataErrors
import TablePlan.Proofs.Eval.Scoping
import TablePlan.Proofs.Function.References
import TablePlan.Proofs.Function.Merging
import TablePlan.Proofs.Function.Traversals
import TablePlan.Proofs.Argument.Body
import TablePlan.Proofs.Plan.Inversion
import TablePlan.Proofs.Plan.Merging
import TablePlan.Proofs.Plan.Scoping
import TablePlan.Proofs.Plan.Structure
import TablePlan.Proofs.Decimal.Positive
import TablePlan.Proofs.Shape
import TablePlan.Proofs.Shape.Sizes
import TablePlan.Proofs.Registry
import TablePlan.Proofs.Builtin.Sum
import TablePlan.Proofs.Expr.Plain
import TablePlan.Proofs.Eval.Answering
import TablePlan.Proofs.Eval.Parallel
import TablePlan.Proofs.Expr.WellFormed
import TablePlan.Proofs.Grammar.Results
import TablePlan.Proofs.Plan.Purity
import TablePlan.Proofs.Plan.Meaning
import TablePlan.Proofs.Plan.Failure
import TablePlan.Proofs.Indices
import TablePlan.Proofs.Plan.Renaming
import TablePlan.Proofs.Grammar.Reading
import TablePlan.Proofs.Grammar.Lexemes
import TablePlan.Proofs.Grammar.Operators
import TablePlan.Proofs.Grammar.Following
import TablePlan.Proofs.Grammar.Primary
import TablePlan.Proofs.Grammar.Readable
import TablePlan.Proofs.Grammar.Printed
import TablePlan.Proofs.Grammar.Continuation
import TablePlan.Proofs.Grammar.Stranding
import TablePlan.Proofs.Grammar.Splitting
import TablePlan.Proofs.Text.Decoding
import TablePlan.Proofs.Decimal.Spelling
import TablePlan.Proofs.Json.Decoding
import TablePlan.Proofs.Plan.Summary
import TablePlan.Proofs.Decimal.Literal
import TablePlan.Proofs.Expr.Legible
import TablePlan.Proofs.Decimal.Shortest
import TablePlan.Proofs.Expr.Decoding
import TablePlan.Proofs.Plan.Fingerprint
import TablePlan.Proofs.ColumnSpec.Resolution
import TablePlan.Proofs.Eval.Operator
import TablePlan.Proofs.Eval.Broadcast
import TablePlan.Proofs.Eval.Stepping
import TablePlan.Proofs.Eval.Blocks
import TablePlan.Proofs.Eval.Integers
import TablePlan.Proofs.Function.Elementwise
import TablePlan.Proofs.Function.Reading
import TablePlan.Proofs.Function.Restoring
import TablePlan.Proofs.Expr.Inlining
import TablePlan.Proofs.Argument.Inlining
import TablePlan.Proofs.Plan.Inlining
import TablePlan.Proofs.Plan.Interpolation
import TablePlan.Proofs.Grid
import TablePlan.Proofs.Value.WellFormed
import TablePlan.Proofs.Eval.Alignment
import TablePlan.Proofs.Grid.Numbering
import TablePlan.Proofs.Grid.Matrix
import TablePlan.Proofs.Eval.Indexing
import TablePlan.Proofs.Builtin.Safety
import TablePlan.Proofs.Eval.Safe
import TablePlan.Proofs.Eval.Bounds
import TablePlan.Proofs.Value.Equality
import TablePlan.Proofs.Eval.Comparison
import TablePlan.Proofs.Plan.Dependence
import TablePlan.Proofs.Argument.Conflict
import TablePlan.Proofs.Argument.Layers
import TablePlan.Proofs.Argument.Collecting
import TablePlan.Proofs.Plan.Pairing
import TablePlan.Proofs.Plan.Recording
import TablePlan.Proofs.Function.Partition
import TablePlan.Proofs.Expr.Grouping
import TablePlan.Proofs.Grammar.Precedence
import TablePlan.Proofs.Grammar.Openings
import TablePlan.Proofs.Grammar.Escapes
import TablePlan.Proofs.Builtin.Pieces
import TablePlan.Proofs.Decimal.Finite
import TablePlan.Proofs.Json.Numbers
import TablePlan.Proofs.Decimal.Words
import TablePlan.Proofs.Json.Canonical
import TablePlan.Proofs.Service.Explain
import TablePlan.Proofs.Value.Exchange
import TablePlan.Proofs.Grammar.Parentheses
import TablePlan.Proofs.Grammar.Enclosing
import TablePlan.Proofs.Grammar.EntryPoints

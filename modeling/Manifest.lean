import Manifest.Json.Report
import Manifest.Main
import Manifest.Schema.Infer
import Manifest.Text.Word
import Manifest.Pattern.Size
import Manifest.Proofs.Grammar.Procedure
import Manifest.Proofs.Grammar.Soundness
import Manifest.Proofs.Grammar.Completeness
import Manifest.Proofs.Grammar.Closure
import Manifest.Proofs.Cardinality
import Manifest.Proofs.Comments.Removal
import Manifest.Proofs.Comments.Insertion
import Manifest.Proofs.Comments.Marks
import Manifest.Proofs.Comments.Reading
import Manifest.Proofs.Scan.Steps
import Manifest.Proofs.Scan.Order
import Manifest.Proofs.Scan.Spans
import Manifest.Proofs.Scan.Cursor
import Manifest.Proofs.Conformance
import Manifest.Proofs.Comments
import Manifest.Proofs.Rendering.Tree
import Manifest.Proofs.Rendering.Lines
import Manifest.Proofs.Rendering.Scalars
import Manifest.Proofs.Rendering.Layout
import Manifest.Proofs.Rendering.Reading
import Manifest.Proofs.Rendering.Parsing
import Manifest.Proofs.Evaluation.Memory
import Manifest.Proofs.Rendering.Evaluation
import Manifest.Proofs.Rendering
import Manifest.Proofs.Evaluation.Harvest
import Manifest.Proofs.Evaluation.Meaning
import Manifest.Proofs.Evaluation.Names
import Manifest.Proofs.Evaluation.Depiction
import Manifest.Proofs.Evaluation.Tracking
import Manifest.Proofs.Evaluation.Adequacy
import Manifest.Proofs.Evaluation.Bare
import Manifest.Proofs.Grammar.Scopes
import Manifest.Proofs.Grammar.Anchors
import Manifest.Proofs.Evaluation.Lockstep
import Manifest.Proofs.Evaluation.Rearranged
import Manifest.Proofs.Evaluation.Transfer
import Manifest.Proofs.Evaluation.Calls
import Manifest.Proofs.Evaluation.Depth
import Manifest.Proofs.Definitions
import Manifest.Proofs.Rearrangement
import Manifest.Proofs.Inference.Settled
import Manifest.Proofs.Inference.Schemas
import Manifest.Proofs.Inference.Sections
import Manifest.Proofs.Inference.Sight
import Manifest.Proofs.Inference.Soundness
import Manifest.Proofs.Inference
import Manifest.Proofs.Grammar.Nesting
import Manifest.Proofs.Nesting
import Manifest.Proofs.Grammar.Rereading
import Manifest.Proofs.Writing
import Manifest.Proofs.Scan.Lines
import Manifest.Proofs.Scan.Layout
import Manifest.Proofs.Scan.Levels
import Manifest.Proofs.Scan.Misfits
import Manifest.Proofs.Scan.Dedents
import Manifest.Proofs.Merging
import Manifest.Proofs.Independence
import Manifest.Proofs.Evaluation.FirstOrder
import Manifest.Proofs.Evaluation.Load
import Manifest.Proofs.Evaluation.Ending
import Manifest.Proofs.Evaluation.Needs
import Manifest.Proofs.Termination
import Manifest.Proofs.Scan.Margin
import Manifest.Proofs.Scan.Facing
import Manifest.Proofs.Scan.Twins
import Manifest.Proofs.Scan.Noise
import Manifest.Proofs.Noise
import Manifest.Proofs.CommandLine.Inputs
import Manifest.Proofs.CommandLine.Outcomes
import Manifest.Proofs.Runs
import Manifest.Proofs.Printing.Ends
import Manifest.Proofs.Printing.LastPart
import Manifest.Proofs.Printing
import Manifest.Proofs.Number.Rounding
import Manifest.Proofs.Json.Numerals
import Manifest.Proofs.Json.Tokens
import Manifest.Proofs.Json.Assembly
import Manifest.Proofs.RoundTrip
import Manifest.Proofs.Evaluation.Persistence
import Manifest.Proofs.Evaluation.Limit
import Manifest.Proofs.Evaluation.Arity
import Manifest.Proofs.Evaluation.Trees
import Manifest.Proofs.Flattening
import Manifest.Proofs.Evaluation.Discipline
import Manifest.Proofs.Discipline
import Manifest.Proofs.Evaluation.Hiding
import Manifest.Proofs.Hiding
import Manifest.Proofs.Mapping
import Manifest.Proofs.Evaluation.Views
import Manifest.Proofs.Evaluation.Mirror
import Manifest.Proofs.Evaluation.Mirrored
import Manifest.Proofs.Evaluation.Binding
import Manifest.Proofs.Application
import Manifest.Proofs.Evaluation.Failures
import Manifest.Proofs.Appending
import Manifest.Proofs.Agreement
import Manifest.Proofs.Scan.Lookahead
import Manifest.Proofs.Scan.Extent
import Manifest.Proofs.Scan.Visits
import Manifest.Proofs.Lookahead
import Manifest.Proofs.Scan.Scalars
import Manifest.Proofs.Contexts
import Manifest.Proofs.Modes
import Manifest.Proofs.Conflicts
import Manifest.Proofs.Scan.Pieces
import Manifest.Proofs.Scan.Quotes
import Manifest.Proofs.Quoting
import Manifest.Proofs.Regrouping
import Manifest.Proofs.Assignability
import Manifest.Proofs.Narrowest
import Manifest.Proofs.Faults
import Manifest.Proofs.Grammar.Records
import Manifest.Proofs.ScopeTree
import Manifest.Proofs.Grammar.Blocks
import Manifest.Proofs.Grammar.Markers
import Manifest.Proofs.Markers
import Manifest.Proofs.Grammar.Columns
import Manifest.Proofs.Scan.Alike
import Manifest.Proofs.Scan.Reindent
import Manifest.Proofs.Indentation
import Manifest.Proofs.Scan.Slices
import Manifest.Proofs.Fidelity
import Manifest.Proofs.Resources
import Manifest.Proofs.Shadowing
import Manifest.Proofs.Streams
import Manifest.Proofs.Memoization
import Manifest.Proofs.Progress.Watched
import Manifest.Proofs.Progress.Balance
import Manifest.Proofs.Progress.Thrift
import Manifest.Proofs.Progress
import Manifest.Proofs.Places

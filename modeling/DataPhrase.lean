import DataPhrase.Main
import DataPhrase.Proofs.Ambiguity.Temporal
import DataPhrase.Proofs.Ambiguity.Unqualified
import DataPhrase.Proofs.Code.Aggregates
import DataPhrase.Proofs.Code.Arithmetic
import DataPhrase.Proofs.Code.Available
import DataPhrase.Proofs.Code.Builtins
import DataPhrase.Proofs.Code.Scope
import DataPhrase.Proofs.Command.Agreement
import DataPhrase.Proofs.Dictionary.History
import DataPhrase.Proofs.Gaps.Tokens
import DataPhrase.Proofs.Pipeline.Columns
import DataPhrase.Proofs.Rows.Refinement
import DataPhrase.Proofs.Statement.Classify
import DataPhrase.Proofs.Statement.QuestionOrder
import DataPhrase.Proofs.Statement.TransformOrder
import DataPhrase.Proofs.Statement.Formed
import DataPhrase.Proofs.Statement.NormalForm
import DataPhrase.Proofs.Statement.Places
import DataPhrase.Proofs.Statement.RoundTrip
import DataPhrase.Proofs.Statement.Surface
import DataPhrase.Proofs.Code.AggregateRows
import DataPhrase.Proofs.Code.Comments
import DataPhrase.Proofs.Code.Doubled
import DataPhrase.Proofs.Code.Intended
import DataPhrase.Proofs.Code.Readable
import DataPhrase.Proofs.Code.ScriptArithmetic
import DataPhrase.Proofs.Code.Splicing
import DataPhrase.Proofs.Statement.Worded
import DataPhrase.Proofs.Plan.Dependence
import DataPhrase.Proofs.Plan.Filters
import DataPhrase.Proofs.Plan.Needed
import DataPhrase.Proofs.Plan.Placing
import DataPhrase.Proofs.Code.Uncommented
import DataPhrase.Proofs.Code.Connectives
import DataPhrase.Proofs.Code.Filters
import DataPhrase.Proofs.Code.Quoted
import DataPhrase.Proofs.Grammar.Parens
import DataPhrase.Proofs.Printing.Condition
import DataPhrase.Proofs.Code.JoinedNames
import DataPhrase.Proofs.Code.JoinSides
import DataPhrase.Proofs.Code.Ownership
import DataPhrase.Proofs.Dictionary.Rendering
import DataPhrase.Proofs.Validation.Places
import DataPhrase.Proofs.Validation.References
import DataPhrase.Proofs.Pipeline.Arrows
import DataPhrase.Proofs.Token.Agreement
import DataPhrase.Proofs.Token.Cover
import DataPhrase.Proofs.Finishing.Statement

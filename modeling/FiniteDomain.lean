import FiniteDomain.Command.Arguments
import FiniteDomain.Command.Outcome
import FiniteDomain.Command.Queens
import FiniteDomain.Command.SolveFile
import FiniteDomain.Comparison
import FiniteDomain.Domain.Basic
import FiniteDomain.Domain.Evaluation
import FiniteDomain.Domain.Resolver
import FiniteDomain.Expression.Constraint
import FiniteDomain.Expression.ConstraintReader
import FiniteDomain.Expression.Domain
import FiniteDomain.Expression.DomainReader
import FiniteDomain.Expression.Lexeme
import FiniteDomain.Expression.ParseError
import FiniteDomain.Expression.Render
import FiniteDomain.Journal.Event
import FiniteDomain.Journal.Narration
import FiniteDomain.Json.Basic
import FiniteDomain.Json.Codec
import FiniteDomain.Json.FindingForm
import FiniteDomain.Json.ModelForm
import FiniteDomain.Json.Reader
import FiniteDomain.Json.SnapshotForm
import FiniteDomain.Json.Writer
import FiniteDomain.Main
import FiniteDomain.Model.Basic
import FiniteDomain.Model.Edit
import FiniteDomain.Model.Error
import FiniteDomain.Model.Finding
import FiniteDomain.Model.InPlace
import FiniteDomain.Model.Validation
import FiniteDomain.Model.Variable
import FiniteDomain.Network.Basic
import FiniteDomain.Network.Build
import FiniteDomain.Repetition
import FiniteDomain.Search.Assignment
import FiniteDomain.Search.Backtracking
import FiniteDomain.Search.Statistics
import FiniteDomain.Search.StatisticsTable
import FiniteDomain.Solution.Snapshot
import FiniteDomain.Solution.Solve
import FiniteDomain.SolveError
import FiniteDomain.Table
import FiniteDomain.Template.Expansion
import FiniteDomain.Template.Substitution
import FiniteDomain.Text.Blank
import FiniteDomain.Text.Decimal
import FiniteDomain.Text.Grid
import FiniteDomain.Text.Invisible
import FiniteDomain.Text.Quoted
import FiniteDomain.Text.Rounding
import FiniteDomain.Word
import FiniteDomain.Proofs.Network.Solution
import FiniteDomain.Proofs.Search.FirstSolution
import FiniteDomain.Proofs.Domain.Evaluation
import FiniteDomain.Proofs.Network.Meaning
import FiniteDomain.Proofs.Network.Relation
import FiniteDomain.Proofs.Network.Declaration
import FiniteDomain.Proofs.Network.Construction
import FiniteDomain.Proofs.Solution.Grouping
import FiniteDomain.Proofs.Solution.Decoding
import FiniteDomain.Proofs.Solution.LeastSolution
import FiniteDomain.Proofs.Expression.TermWord
import FiniteDomain.Proofs.Template.Substitution
import FiniteDomain.Proofs.Template.RelationWord
import FiniteDomain.Proofs.Template.Expansion
import FiniteDomain.Proofs.Expression.SeparatedWord
import FiniteDomain.Proofs.Expression.ClauseWord
import FiniteDomain.Proofs.Expression.ConstraintWord
import FiniteDomain.Proofs.Expression.Rendering
import FiniteDomain.Proofs.Expression.DomainWord
import FiniteDomain.Proofs.Domain.Bijection
import FiniteDomain.Proofs.Network.Anonymous
import FiniteDomain.Proofs.Model.Replacement
import FiniteDomain.Proofs.Network.Checked
import FiniteDomain.Proofs.Search.Checked
import FiniteDomain.Proofs.Solution.Arithmetic
import FiniteDomain.Proofs.Solution.Rejection
import FiniteDomain.Proofs.Search.Step
import FiniteDomain.Proofs.Search.Limit
import FiniteDomain.Proofs.Search.Balance
import FiniteDomain.Proofs.Search.Chronological
import FiniteDomain.Proofs.Solution.Difference
import FiniteDomain.Proofs.Solution.WrittenOut
import FiniteDomain.Proofs.Network.Effects
import FiniteDomain.Proofs.Search.Alike
import FiniteDomain.Proofs.Solution.Conjunction
import FiniteDomain.Proofs.Model.Editing
import FiniteDomain.Proofs.Network.Addressing
import FiniteDomain.Proofs.Solution.ReadBack
import FiniteDomain.Proofs.Solution.Labelling
import FiniteDomain.Proofs.Json.Forms
import FiniteDomain.Proofs.Template.Spelling
import FiniteDomain.Proofs.Command.Queens
import FiniteDomain.Proofs.Model.Rules
import FiniteDomain.Proofs.Model.InPlace
import FiniteDomain.Proofs.Model.Names
import FiniteDomain.Proofs.Domain.Size
import FiniteDomain.Proofs.Network.Mirror
import FiniteDomain.Proofs.Solution.Mirror
import FiniteDomain.Proofs.Domain.Caching
import FiniteDomain.Proofs.Model.Accumulation
import FiniteDomain.Proofs.Model.References
import FiniteDomain.Proofs.Network.Representation
import FiniteDomain.Proofs.Model.History
import FiniteDomain.Proofs.Domain.Slicing
import FiniteDomain.Proofs.Expression.Tracer
import FiniteDomain.Proofs.Expression.TracedReading
import FiniteDomain.Proofs.Expression.Rejection
import FiniteDomain.Proofs.Domain.Padding

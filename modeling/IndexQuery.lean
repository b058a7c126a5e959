import IndexQuery.Command.Config
import IndexQuery.Command.Line
import IndexQuery.Command.Request
import IndexQuery.Command.Run
import IndexQuery.Compile.Aggregate
import IndexQuery.Compile.Response
import IndexQuery.Compile.Search
import IndexQuery.Counters
import IndexQuery.Error
import IndexQuery.Expr.Basic
import IndexQuery.Expr.Field
import IndexQuery.Expr.Json
import IndexQuery.Expr.Operator
import IndexQuery.Expr.Stage
import IndexQuery.File.Basic
import IndexQuery.File.Directory
import IndexQuery.Filter.Basic
import IndexQuery.Filter.OfExpr
import IndexQuery.Json.Basic
import IndexQuery.Json.Document
import IndexQuery.Json.Printer
import IndexQuery.Json.Reader
import IndexQuery.Log.Entry
import IndexQuery.Log.Journal
import IndexQuery.Main
import IndexQuery.NameMap
import IndexQuery.Number.Basic
import IndexQuery.Number.Binary64
import IndexQuery.Number.Layout
import IndexQuery.Number.Shortest
import IndexQuery.Plan.Aggregate
import IndexQuery.Plan.Basic
import IndexQuery.Plan.Explain
import IndexQuery.Plan.Json
import IndexQuery.Plan.Search
import IndexQuery.Proofs.Aggregate.Arrangement
import IndexQuery.Proofs.Aggregate.Command
import IndexQuery.Proofs.Aggregate.Neighbours
import IndexQuery.Proofs.Aggregate.ReductionRuns
import IndexQuery.Proofs.Aggregate.Reductions
import IndexQuery.Proofs.Aggregate.Segments
import IndexQuery.Proofs.Aggregate.Stages
import IndexQuery.Proofs.Chain
import IndexQuery.Proofs.Command.Runs
import IndexQuery.Proofs.Compiled
import IndexQuery.Proofs.Conversions
import IndexQuery.Proofs.Expr.Representations
import IndexQuery.Proofs.Expr.Selectors
import IndexQuery.Proofs.Expr.Spine
import IndexQuery.Proofs.Failures
import IndexQuery.Proofs.Filter.Accepted
import IndexQuery.Proofs.Filter.ClauseHeads
import IndexQuery.Proofs.Filter.Composition
import IndexQuery.Proofs.Filter.Meaning
import IndexQuery.Proofs.Filter.Tests
import IndexQuery.Proofs.Filter.Transparency
import IndexQuery.Proofs.Json.Records
import IndexQuery.Proofs.Json.RoundTrip
import IndexQuery.Proofs.Log.Lines
import IndexQuery.Proofs.Number.Reading
import IndexQuery.Proofs.Number.Rounding
import IndexQuery.Proofs.Number.Text
import IndexQuery.Proofs.Query.Clauses
import IndexQuery.Proofs.Query.Grammar
import IndexQuery.Proofs.Query.Parser
import IndexQuery.Proofs.Reader
import IndexQuery.Proofs.Schema.SaveLoad
import IndexQuery.Proofs.Search.Arguments
import IndexQuery.Proofs.Search.Assembly
import IndexQuery.Proofs.Session.Accounting
import IndexQuery.Proofs.Session.Brackets
import IndexQuery.Proofs.Term.Grammar
import IndexQuery.Proofs.Term.RoundTrip
import IndexQuery.Proofs.Text.ByteOrder
import IndexQuery.Proofs.Text.Literals
import IndexQuery.Proofs.Windows
import IndexQuery.Schema.Basic
import IndexQuery.Schema.File
import IndexQuery.Schema.Json
import IndexQuery.Session
import IndexQuery.Settings
import IndexQuery.Term.Basic
import IndexQuery.Text.Blank
import IndexQuery.Text.Escape
import IndexQuery.Text.Lines

import IndexAccess.Binary64
import IndexAccess.BoundColumns
import IndexAccess.Candidates
import IndexAccess.Collation
import IndexAccess.Column
import IndexAccess.Counters
import IndexAccess.Decimal.Layout
import IndexAccess.Decimal.Shortest
import IndexAccess.Document.Flaw
import IndexAccess.Document.Number
import IndexAccess.Document.Reader
import IndexAccess.Document.Skip
import IndexAccess.Document.Strings
import IndexAccess.Document.Value
import IndexAccess.Expr
import IndexAccess.Fault
import IndexAccess.Index
import IndexAccess.Journal
import IndexAccess.Literal
import IndexAccess.Path.Basic
import IndexAccess.Path.Operations
import IndexAccess.PathError
import IndexAccess.Proofs.Seek.Walk
import IndexAccess.RowEstimates
import IndexAccess.Seek.Extension
import IndexAccess.Seek.Verdict
import IndexAccess.Session
import IndexAccess.Settings
import IndexAccess.Settings.Reading
import IndexAccess.SqlType
import IndexAccess.Stage
import IndexAccess.Text.Hidden
import IndexAccess.Text.Quoted
import IndexAccess.Proofs.Seek.Reference
import IndexAccess.Proofs.Candidates.Selection
import IndexAccess.Proofs.Lifecycle.Runs
import IndexAccess.Proofs.Lifecycle.Parts
import IndexAccess.Proofs.Lifecycle.Representation
import IndexAccess.Proofs.Candidates.Ranking
import IndexAccess.Proofs.Lifecycle.Conservation
import IndexAccess.Proofs.Candidates.History
import IndexAccess.Proofs.Seek.Placement
import IndexAccess.Proofs.Lifecycle.Refusals
import IndexAccess.Proofs.Lifecycle.Estimates
import IndexAccess.Proofs.BoundColumns.Dominance
import IndexAccess.Proofs.Lifecycle.Coverage
import IndexAccess.Proofs.Session.Ledger
import IndexAccess.Proofs.Seek.Templates
import IndexAccess.Proofs.Lifecycle.EntryFilters
import IndexAccess.Proofs.Session.Scopes
import IndexAccess.Proofs.Lifecycle.Progress
import IndexAccess.Proofs.Candidates.Stability
import IndexAccess.Proofs.Lifecycle.Unions
import IndexAccess.Proofs.Lifecycle.ExtendedSeek
import IndexAccess.Proofs.Candidates.Effect
import IndexAccess.Proofs.Seek.Composition
import IndexAccess.Proofs.Seek.Comparison
import IndexAccess.Proofs.Seek.Rejection
import IndexAccess.Proofs.Seek.Recognition
import IndexAccess.Proofs.Lifecycle.Separation
import IndexAccess.Proofs.Lifecycle.RecordedPrefix
import IndexAccess.Proofs.Seek.Report
import IndexAccess.Proofs.Candidates.StageLog
import IndexAccess.Proofs.Index.Acceptance
import IndexAccess.Proofs.Collation.Families

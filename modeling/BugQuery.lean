import BugQuery.FileTree
import BugQuery.Main
import BugQuery.Proofs.Query.FailedRun
import BugQuery.Proofs.Query.Faults
import BugQuery.Proofs.Query.Charts
import BugQuery.Proofs.Json.RoundTrip
import BugQuery.Proofs.Expr.Cells
import BugQuery.Proofs.Expr.Grammar
import BugQuery.Proofs.Expr.Canonical
import BugQuery.Proofs.Chart.Lossless
import BugQuery.Proofs.Command.Stages
import BugQuery.Proofs.Command.Layers
import BugQuery.Proofs.Query.Agreement
import BugQuery.Proofs.Placeholder.Scan
import BugQuery.Proofs.Query.ReturnedFields
import BugQuery.Proofs.Query.Roles
import BugQuery.Proofs.Chart.Events
import BugQuery.Proofs.Query.Trace
import BugQuery.Proofs.Placeholder.Written
import BugQuery.Proofs.Query.Reselection
import BugQuery.Proofs.Text.Entries
import BugQuery.Proofs.Query.IdleOptions
import BugQuery.Proofs.Query.SoleKeys
import BugQuery.Proofs.Query.Spelling
import BugQuery.Proofs.Query.Tuned
import BugQuery.Proofs.Query.Modifiers
import BugQuery.Proofs.Expr.Joined
import BugQuery.Proofs.Expr.Segments
import BugQuery.Proofs.Chart.Entries
import BugQuery.Proofs.Chart.Placement
import BugQuery.Proofs.Text.Layout
import BugQuery.Proofs.Query.ComponentsFile
import BugQuery.Proofs.Query.Statuses
import BugQuery.Proofs.Chart.Content
import BugQuery.Proofs.FieldTable.Precedence
import BugQuery.Proofs.Payload.Session

import RunLedger.Config
import RunLedger.Config.File
import RunLedger.Config.Text
import RunLedger.Damage
import RunLedger.Database
import RunLedger.Database.Coordinator
import RunLedger.Decimal.Shortest
import RunLedger.Failure
import RunLedger.Json
import RunLedger.Json.Field
import RunLedger.Key
import RunLedger.Key.Component
import RunLedger.Key.Layout
import RunLedger.Ledger
import RunLedger.Ledger.Progress
import RunLedger.Ledger.Runs
import RunLedger.Ledger.Summaries
import RunLedger.Program
import RunLedger.Run.Record
import RunLedger.Run.Status
import RunLedger.RunId
import RunLedger.SortedMap
import RunLedger.SortedMap.Lookup
import RunLedger.Store
import RunLedger.Store.Chain
import RunLedger.Store.Substrate
import RunLedger.Stored.Run
import RunLedger.Stored.Workflow
import RunLedger.Text
import RunLedger.Text.Quoted
import RunLedger.Text.Visible
import RunLedger.Toml
import RunLedger.Toml.Document
import RunLedger.Toml.Reader
import RunLedger.Toml.Scalar
import RunLedger.Transaction
import RunLedger.Transaction.Commit
import RunLedger.Transaction.Script
import RunLedger.Transaction.Status
import RunLedger.Value
import RunLedger.Workflow.NearestRank
import RunLedger.Workflow.NodeState
import RunLedger.Workflow.Spacing
import RunLedger.Workflow.Statistics
import RunLedger.Workflow.Summary
import RunLedger.Workflow.Token
import RunLedger.Proofs.SortedMap.Bulk
import RunLedger.Proofs.Store.Chain
import RunLedger.Proofs.Store.Entries
import RunLedger.Proofs.Key.Order
import RunLedger.Proofs.Store.Live
import RunLedger.Proofs.Store.Chronicle
import RunLedger.Proofs.Transaction.Calls
import RunLedger.Proofs.Transaction.Reads
import RunLedger.Proofs.Transaction.Validation
import RunLedger.Proofs.Transaction.Uses
import RunLedger.Proofs.Transaction.Overlay
import RunLedger.Proofs.Database.Interleaving
import RunLedger.Proofs.Database.Snapshots
import RunLedger.Proofs.Database.Pool
import RunLedger.Proofs.Database.Soundness
import RunLedger.Proofs.Database.CommitPoint
import RunLedger.Proofs.Json.Reading
import RunLedger.Proofs.Stored.RoundTrip
import RunLedger.Proofs.Key.Layout
import RunLedger.Proofs.Transaction.Evaluation
import RunLedger.Proofs.Ledger.Records
import RunLedger.Proofs.Ledger.Lifecycle
import RunLedger.Proofs.Ledger.Removal
import RunLedger.Proofs.Ledger.Operations
import RunLedger.Proofs.Ledger.Commits
import RunLedger.Proofs.Ledger.Progress
import RunLedger.Proofs.Ledger.StatusIndex
import RunLedger.Proofs.Ledger.WellFormedRecords
import RunLedger.Proofs.Ledger.TerminalStatus
import RunLedger.Proofs.Text.Order
import RunLedger.Proofs.Key.Reading
import RunLedger.Proofs.Key.ComponentOrder
import RunLedger.Proofs.Key.Exactness
import RunLedger.Proofs.Database.Alone
import RunLedger.Proofs.Ledger.Orderly
import RunLedger.Proofs.Ledger.Draining
import RunLedger.Proofs.Ledger.ScopeRemoval
import RunLedger.Proofs.Stored.Faithfulness
import RunLedger.Proofs.Database.Untouched
import RunLedger.Proofs.Ledger.Refusals
import RunLedger.Proofs.Ledger.Listings
import RunLedger.Proofs.Ledger.SummarySoundness
import RunLedger.Proofs.Store.Reclaiming
import RunLedger.Proofs.Database.Reclaiming
import RunLedger.Proofs.Ledger.Reclaiming
import RunLedger.Proofs.Workflow.Spacing
import RunLedger.Proofs.Ledger.StoredSummaries
import RunLedger.Proofs.Ledger.Outages
import RunLedger.Proofs.Ledger.Registrations
import RunLedger.Proofs.Database.Conflicts
import RunLedger.Proofs.Database.Independence
import RunLedger.Proofs.Ledger.Footprints
import RunLedger.Proofs.Ledger.Independence
import RunLedger.Proofs.Ledger.Windows
import RunLedger.Proofs.Transaction.View
import RunLedger.Proofs.Ledger.StoredRecords
import RunLedger.Proofs.Ledger.Frame
import RunLedger.Proofs.Ledger.Corruption
import RunLedger.Proofs.Ledger.Comparing
import RunLedger.Proofs.Transaction.Endings
import RunLedger.Proofs.Database.Retries
import RunLedger.Proofs.Database.Confinement
import RunLedger.Proofs.Ledger.Aggregation
import RunLedger.Proofs.Ledger.Repetition
import RunLedger.Proofs.Ledger.Sampling
import RunLedger.Proofs.Workflow.Statistics
import RunLedger.Proofs.Ledger.WindowStatistics
import RunLedger.Proofs.Double.Rounding
import RunLedger.Proofs.Workflow.NearestRank
import RunLedger.Proofs.Database.Counting
import RunLedger.Proofs.Ledger.NodeStates
import RunLedger.Proofs.Workflow.Token
import RunLedger.Proofs.Ledger.Tokens

import Upkeep.Audit.Event
import Upkeep.Audit.Journal
import Upkeep.Audit.Reading
import Upkeep.Audit.Trace
import Upkeep.Audit.Trail
import Upkeep.Binary64
import Upkeep.Binary64.Shortest
import Upkeep.Config.Basic
import Upkeep.Config.Fields
import Upkeep.Config.Json
import Upkeep.Config.Store
import Upkeep.Coordinator.Admission
import Upkeep.Coordinator.Basic
import Upkeep.Coordinator.Caller
import Upkeep.Coordinator.Status
import Upkeep.Coordinator.Vigil
import Upkeep.Coordinator.Worker
import Upkeep.Digest.Sha256
import Upkeep.Files.Basic
import Upkeep.Files.Path
import Upkeep.Json.Access
import Upkeep.Json.Numeral
import Upkeep.Json.Printer
import Upkeep.Json.Token
import Upkeep.Json.Tree
import Upkeep.Json.Value
import Upkeep.Locks.Keeper
import Upkeep.Memory.Meminfo
import Upkeep.Memory.Monitor
import Upkeep.Operation.Basic
import Upkeep.Operation.Id
import Upkeep.Operation.Outcome
import Upkeep.Operation.Priority
import Upkeep.Operation.Requirement
import Upkeep.Proofs.Association
import Upkeep.Proofs.Coordinator.Custody
import Upkeep.Proofs.Coordinator.Runs
import Upkeep.Proofs.Files.OpenFiles
import Upkeep.Proofs.Files.Resolution
import Upkeep.Proofs.Locks.Exclusion
import Upkeep.Proofs.Locks.Interleaving
import Upkeep.Proofs.Locks.Keepers
import Upkeep.Proofs.Locks.Sharing
import Upkeep.Proofs.Locks.Table
import Upkeep.Queue.Basic
import Upkeep.Queue.Waiting
import Upkeep.Rehearsal.Drill
import Upkeep.Rehearsal.Transactions
import Upkeep.Rehearsal.World
import Upkeep.Text.Blank
import Upkeep.Text.Bytes
import Upkeep.Text.Lines
import Upkeep.Text.Number
import Upkeep.Text.Quoted
import Upkeep.Text.Unprintable
import Upkeep.Time.Calendar
import Upkeep.Time.Duration
import Upkeep.Time.Rfc3339
import Upkeep.Time.Timestamp
import Upkeep.Toml.DateTime
import Upkeep.Toml.Printer
import Upkeep.Toml.Reader
import Upkeep.Toml.Text
import Upkeep.Toml.Value
import Upkeep.Transaction.Basic
import Upkeep.Transaction.Registry
import Upkeep.Transaction.Step
import Upkeep.Proofs.Queue.Entries
import Upkeep.Proofs.Queue.Order
import Upkeep.Proofs.Coordinator.Deeds
import Upkeep.Proofs.Coordinator.Conservation
import Upkeep.Proofs.Coordinator.Running
import Upkeep.Proofs.Coordinator.Snapshots
import Upkeep.Proofs.Coordinator.Idleness
import Upkeep.Proofs.Transaction.Steps
import Upkeep.Proofs.Transaction.Compensation
import Upkeep.Proofs.Transaction.Histories
import Upkeep.Proofs.Transaction.Undoing
import Upkeep.Proofs.Locks.Refinement
import Upkeep.Proofs.Coordinator.Stopping
import Upkeep.Proofs.Coordinator.Reports
import Upkeep.Proofs.Audit.Sinks
import Upkeep.Proofs.Transaction.Coherence
import Upkeep.Proofs.Toml.Texts
import Upkeep.Proofs.Toml.Documents
import Upkeep.Proofs.Config.RoundTrip
import Upkeep.Proofs.Files.Occupants
import Upkeep.Proofs.Config.Storing
import Upkeep.Proofs.Binary64.Rounding
import Upkeep.Proofs.Binary64.Digits
import Upkeep.Proofs.Json.Numerals
import Upkeep.Proofs.Json.Reals
import Upkeep.Proofs.Json.Values
import Upkeep.Proofs.Audit.Nesting
import Upkeep.Proofs.Memory.Thresholds
import Upkeep.Proofs.Transaction.Execution
import Upkeep.Proofs.Queue.Accounts
import Upkeep.Proofs.Coordinator.Lifecycles
import Upkeep.Proofs.Transaction.Sweeps
import Upkeep.Proofs.Transaction.Rollbacks
import Upkeep.Proofs.Transaction.Snapshots
import Upkeep.Proofs.Locks.Probes
import Upkeep.Proofs.Coordinator.Admissions
import Upkeep.Proofs.Locks.Batches
import Upkeep.Proofs.Locks.Agreement
import Upkeep.Proofs.Queue.Waiters
import Upkeep.Proofs.Coordinator.Usage
import Upkeep.Proofs.Transaction.Registrations
import Upkeep.Proofs.Transaction.Offices
import Upkeep.Proofs.Json.Canonical
import Upkeep.Proofs.Json.Literals
import Upkeep.Proofs.Audit.Rereading
import Upkeep.Proofs.Config.Intervals
import Upkeep.Proofs.Operation.Identifiers
import Upkeep.Proofs.Memory.Reports

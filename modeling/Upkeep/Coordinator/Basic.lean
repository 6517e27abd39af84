import Upkeep.Config.Basic
import Upkeep.Coordinator.Admission
import Upkeep.Locks.Keeper
import Upkeep.Queue.Basic

/-!
# The coordinator

A coordinator has a queue, a keeper of locks, and workers, which take operations from the queue,
admit them, lock their paths, run them, and put those back that are rejected. The workers, the
callers and the rest of the world take turns: each step below is one section of work that nobody
can interrupt, and any order of steps may happen.

The state keeps, beside what the coordinator itself knows, where each worker and each caller is, and
the reports made so far.
-/

namespace Upkeep

/-- Counters that never decrease. -/
structure Metrics where
  started : Nat := 0
  completed : Nat := 0
  failed : Nat := 0
  memoryThrottles : Nat := 0
  resourceConflicts : Nat := 0
  dropped : Nat := 0
  deriving DecidableEq

/-- The work of an operation, with the number of its submission. -/
structure Assignment (ω : Type) where
  ticket : Nat
  job : ω

/-- An operation that was submitted. -/
abbrev Submitted (ω : Type) := Operation (Assignment ω)

/-- How a finished operation is counted. -/
inductive Verdict where
  | completed | failed
  deriving DecidableEq

/-- Where a worker is. -/
inductive Phase (ω : Type) where
  /-- About to look at the stop flag. -/
  | idle
  /-- The flag was down; about to dequeue. -/
  | ready
  /-- About to read memory for the pressure. -/
  | admitting (op : Submitted ω)
  /-- About to read memory for the headroom. -/
  | weighing (op : Submitted ω)
  /-- About to look at the first of the paths. -/
  | probing (op : Submitted ω) (paths : List String)
  /-- About to report a rejection. -/
  | warning (op : Submitted ω) (why : Rejection)
  /-- About to count a rejection. -/
  | rejecting (op : Submitted ω) (why : Rejection)
  /-- About to put the operation back into the queue. -/
  | requeueing (op : Submitted ω)
  /-- About to report that the queue refused the operation. -/
  | dropping (op : Submitted ω) (why : Queue.Refusal)
  /-- About to count a dropped operation. -/
  | losing
  /-- Admitted; about to enter the operation and to take its locks. -/
  | entering (op : Submitted ω)
  /-- About to report that the locks could not be taken. -/
  | conflicted (op : Submitted ω)
  /-- About to report the start. -/
  | starting (op : Submitted ω) (locks : List String)
  /-- About to call the callback. -/
  | running (op : Submitted ω) (locks : List String)
  /-- About to report the end. -/
  | reporting (op : Submitted ω) (locks : List String) (outcome : Outcome)
  /-- About to release the first of the locks. -/
  | releasing (id : OperationId) (locks : List String) (verdict : Option Verdict)
  /-- About to take the operation out of the running ones and to count it. -/
  | leaving (id : OperationId) (verdict : Option Verdict)
  /-- About to tell the queue that the operation is done with. -/
  | finishing
  /-- No longer at work. -/
  | stopped

/-- What a caller has still to report. -/
inductive Telling (ω : Type) where
  | accepted (op : Submitted ω)
  | refused (op : Submitted ω) (why : Queue.Refusal)
  | cancelled (op : Submitted ω)

/-- A report, with the submission whose sink received it. -/
structure AuditEntry (ω : Type) where
  work : Assignment ω
  operation : String
  report : Report

/-- A coordinator with its workers and callers. -/
structure Coordinator (ω : Type) where
  config : CoordinatorConfig
  monitor : MemoryMonitor
  queue : Queue (Assignment ω)
  keeper : LockKeeper
  files : Files
  /-- The running operations; each identifier has at most one entry. -/
  running : List (OperationId × Summary) := []
  metrics : Metrics := {}
  isStopping : Bool := false
  workers : List (Phase ω)
  telling : List (Telling ω) := []
  submissions : Nat := 0
  audit : List (AuditEntry ω) := []

/-- Why a coordinator cannot be made. -/
inductive CoordinatorFault where
  | config (why : InvalidConfig)
  | lockDirectory (directory : FilePath) (fault : FileFault)

namespace CoordinatorFault

def message : CoordinatorFault → String
  | config why => why.message
  | lockDirectory directory fault => LockKeeper.createMessage directory fault

end CoordinatorFault

namespace Coordinator

variable {ω : Type}

/-- A coordinator with all its workers idle. -/
def create (config : CoordinatorConfig) (fs : Files) : Except CoordinatorFault (Coordinator ω) :=
  match config.invalid? with
  | some why => .error (.config why)
  | none =>
    let directory := FilePath.ofString config.lockDir
    match LockKeeper.create fs directory with
    | (_, .error fault) => .error (.lockDirectory directory fault)
    | (files, .ok keeper) => .ok {
        config, monitor := config.monitor, queue := { capacity := config.queueCapacity.toNat },
        keeper, files, workers := List.replicate config.maxConcurrent.toNat .idle }

/-- Adds a report about an operation. -/
def tell (c : Coordinator ω) (op : Submitted ω) (r : Report) : Coordinator ω :=
  { c with audit := c.audit ++ [⟨op.work, op.id.text, r⟩] }

/-- Enters an operation among the running ones, in place of one of the same identifier. -/
def enter (c : Coordinator ω) (op : Submitted ω) : Coordinator ω :=
  { c with running := (op.id, op.summary) :: c.running.filter (·.1 != op.id) }

/-- Takes the operation of an identifier out of the running ones. -/
def leave (c : Coordinator ω) (i : OperationId) : Coordinator ω :=
  { c with running := c.running.filter (·.1 != i) }

def count (c : Coordinator ω) (f : Metrics → Metrics) : Coordinator ω :=
  { c with metrics := f c.metrics }

end Coordinator

namespace Metrics

def reject (m : Metrics) (why : Rejection) : Metrics :=
  if why.isMemory then { m with memoryThrottles := m.memoryThrottles + 1 }
  else { m with resourceConflicts := m.resourceConflicts + 1 }

/-- Counts an operation that ended; one that broke off is not counted. -/
def finish (m : Metrics) : Option Verdict → Metrics
  | some .completed => { m with completed := m.completed + 1 }
  | some .failed => { m with failed := m.failed + 1 }
  | none => m

end Metrics

end Upkeep

import Upkeep.Config.Basic
import Upkeep.Transaction.Basic

/-!
# The registry of transactions

Live transactions by the operations that they belong to. The registry knows a transaction only by a
handle, since others may be using it; a sweep asks for the standing of each and drops those that are
idle and too old.
-/

namespace Upkeep

/-- What can be seen of a transaction from outside. -/
structure Standing where
  state : TransactionState
  startedAt : Nat
  /-- Someone is using the transaction at this moment. -/
  isLocked : Bool := false

/-- The registered transactions: handles by operation. -/
structure Registry where
  defaultTimeout : Duration := Transaction.defaultTimeout
  stallMaxAge : Duration := .ofSecs 3600
  entries : List (OperationId × Nat) := []

namespace Registry

def ofConfig (c : TransactionConfig) : Registry :=
  { defaultTimeout := c.timeout, stallMaxAge := c.stallMaxAge }

/-- Registers a transaction, in place of an earlier one of the operation. -/
def insert (r : Registry) (i : OperationId) (handle : Nat) : Registry :=
  { r with entries := (i, handle) :: r.entries.filter (·.1 != i) }

/-- The transaction of an operation, given by a text. -/
def get? (r : Registry) (operation : String) : Option Nat :=
  (r.entries.find? (·.1.text = operation)).map (·.2)

/-- Drops the transaction of an operation, if there is one. -/
def complete (r : Registry) (operation : String) : Bool × Registry :=
  ((r.get? operation).isSome,
    { r with entries := r.entries.filter (·.1.text != operation) })

def count (r : Registry) : Nat := r.entries.length

/-- The operations, sorted. -/
def ids (r : Registry) : List OperationId :=
  (r.entries.map (·.1)).mergeSort fun a b => a.text ≤ b.text

/-- A transaction that nobody uses, that no call is working on, and that is older than an age. -/
def isStalled (now : Nat) (maxAge : Duration) (s : Standing) : Bool :=
  !s.isLocked && maxAge.nanos < now - s.startedAt && !s.state.isActive

/-- Drops the stalled transactions, and counts them. -/
def sweep (r : Registry) (now : Nat) (standing : Nat → Standing) (maxAge : Duration) :
    Nat × Registry :=
  let kept := r.entries.filter fun e => !isStalled now maxAge (standing e.2)
  (r.entries.length - kept.length, { r with entries := kept })

end Registry

end Upkeep

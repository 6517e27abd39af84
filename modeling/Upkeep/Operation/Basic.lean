import Upkeep.Operation.Id
import Upkeep.Operation.Outcome
import Upkeep.Operation.Priority
import Upkeep.Operation.Requirement
import Upkeep.Time.Rfc3339

/-!
# Operations

A unit of maintenance work: what it is called, how urgent it is, what it needs, the paths that it
locks, and its work, which the scheduler does not look into.
-/

namespace Upkeep

/-- An operation whose work is described by `ω`. -/
structure Operation (ω : Type) where
  id : OperationId
  kind : OperationKind := .sync
  priority : Priority := .normal
  requirement : Requirement := {}
  paths : List String := []
  created : Timestamp
  started : Option Timestamp := none
  completed : Option Timestamp := none
  work : ω

/-- An operation without its work. -/
abbrev Summary := Operation Unit

namespace Operation

variable {ω : Type}

def summary (op : Operation ω) : Summary := { op with work := () }

/-- How long the operation ran, once it has ended. -/
def duration? (op : Operation ω) : Option Duration := do
  return (← op.started).elapsedTo (← op.completed)

/-- The result of a callback that ended in this way: nothing, or what is wrong. -/
def resultOf (o : Outcome) : Except String Unit :=
  match o.fault? "callback" with
  | none => .ok ()
  | some text => .error text

end Operation

end Upkeep

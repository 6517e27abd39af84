import Upkeep.Operation.Outcome
import Upkeep.Time.Duration

/-!
# Transaction steps

A step acts on a world of any type and can be undone by a second action. It remembers what became of
its latest run.
-/

namespace Upkeep

/-- A world that has a clock, in nanoseconds. -/
class Clock (σ : Type) where
  now : σ → Nat

/-- What a callback does to the world, and how it ends. -/
abbrev Action (σ : Type) := σ → Outcome × σ

/-- A reversible unit of a transaction. -/
structure TransactionStep (σ : Type) where
  name : String
  description : String
  action : Action σ
  inverse : Action σ
  isCompleted : Bool := false
  isUndone : Bool := false
  error : Option String := none
  executionTime : Option Duration := none

namespace TransactionStep

variable {σ : Type}

/-- The step has an effect that is still to be undone. -/
def isEligible (s : TransactionStep σ) : Bool := s.isCompleted && !s.isUndone

/-- The step as if it had never run. -/
def reset (s : TransactionStep σ) : TransactionStep σ :=
  { s with isCompleted := false, isUndone := false, error := none, executionTime := none }

/-- The action that does nothing. -/
def noAction : Action σ := fun w => (.success, w)

/-- What is wrong with an outcome, if anything. -/
def fault? (o : Outcome) : Option String := o.fault? "step"

/-- Runs the action and notes what became of it. -/
def run [Clock σ] (s : TransactionStep σ) (w : σ) : Option String × TransactionStep σ × σ :=
  let (o, w') := s.action w
  let time := some (.ofNanos (Clock.now w' - Clock.now w))
  match fault? o with
  | none => (none, { s.reset with isCompleted := true, executionTime := time }, w')
  | some e => (some e, { s.reset with error := some e, executionTime := time }, w')

/-- Runs the inverse action and notes its success. -/
def undo (s : TransactionStep σ) (w : σ) : Option String × TransactionStep σ × σ :=
  let (o, w') := s.inverse w
  match fault? o with
  | none => (none, { s with isUndone := true }, w')
  | some e => (some e, s, w')

end TransactionStep

end Upkeep

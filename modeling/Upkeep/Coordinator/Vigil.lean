import Upkeep.Coordinator.Status
import Upkeep.Queue.Waiting

/-!
# Waiting until a coordinator is idle

A caller that waits looks at the running operations and, if there are none, at the queue. Each look
is a step of its own, so others may take turns between the two. If the caller finds something to
wait for, it gives up once its deadline has passed; otherwise it sleeps and looks again.
-/

namespace Upkeep

/-- Where a caller is that waits. -/
inductive Vigil where
  /-- About to look at the running operations. -/
  | looking
  /-- Nothing was running; about to look at the queue. -/
  | checking
  /-- There was something to wait for; about to look at the clock. -/
  | pausing
  /-- Asleep for some time, in nanoseconds, if nothing wakes it. -/
  | sleeping (nanos : Nat)
  | answered (isIdle : Bool)
  deriving DecidableEq

/-- A call to wait: when it gives up, if ever, and where it is. -/
structure Wait where
  deadline? : Option Nat
  vigil : Vigil := .looking

namespace Wait

/-- When a caller that comes now gives up. Without a timeout, with none to speak of, or with one
that is too long, it never does. -/
def deadlineFrom (now : Nat) (timeout? : Option Duration) : Option Nat :=
  (timeout?.filter (·.nanos ≠ 0)).bind fun timeout =>
    if now + timeout.nanos < Queue.Hall.longestWait then some (now + timeout.nanos) else none

def begin (now : Nat) (timeout? : Option Duration) : Wait where
  deadline? := deadlineFrom now timeout?

end Wait

namespace Coordinator

variable {ω : Type}

/-- The step of a caller that waits. -/
def watch (c : Coordinator ω) (now : Nat) (wait : Wait) : Wait :=
  let poll := c.config.idlePoll.nanos
  { wait with
    vigil := match wait.vigil with
      | .looking => if c.running.isEmpty then .checking else .pausing
      | .checking => if c.queue.isDrained then .answered true else .pausing
      | .pausing =>
        match wait.deadline? with
        | none => .sleeping poll
        | some deadline =>
          if deadline ≤ now then .answered false else .sleeping (min poll (deadline - now))
      | .sleeping _ => .looking
      | .answered isIdle => .answered isIdle }

end Coordinator

end Upkeep

import Upkeep.Queue.Basic

/-!
# Waiting for an operation

Takers that find the queue empty wait, each until its own deadline. A waiting taker may wake at any
time, for a reason or for none: it looks at the queue again and goes on waiting if there is still
nothing to take and no reason to give up. Once its deadline has passed it takes what there is and
leaves.
-/

namespace Upkeep.Queue

/-- A taker that waits. -/
structure Waiter where
  ticket : Nat
  /-- The time at which it gives up; without one it waits until the queue is shut. -/
  deadline : Option Nat
  deriving DecidableEq

/-- A queue with its waiting takers, the time, and what each taker has been given. -/
structure Hall (ω : Type) where
  queue : Queue ω
  now : Nat := 0
  waiting : List Waiter := []
  answers : List (Nat × Option (Operation ω)) := []

namespace Hall

variable {ω : Type}

/-- The longest wait that has a deadline. -/
def longestWait : Nat := 9223372036854775808 * nanosPerSecond

/-- When a taker that comes now gives up. -/
def deadline? (h : Hall ω) (wait : Duration) : Option Nat :=
  if h.now + wait.nanos < longestWait then some (h.now + wait.nanos) else none

/-- Gives the next operation, if any, to the taker with a ticket, who leaves. -/
def serve (h : Hall ω) (ticket : Nat) : Hall ω :=
  let waiting := h.waiting.filter (·.ticket != ticket)
  match h.queue.dequeue? with
  | some (op, q) =>
    { h with queue := q, waiting, answers := h.answers ++ [(ticket, some op)] }
  | none => { h with waiting, answers := h.answers ++ [(ticket, none)] }

/-- A taker need not wait. -/
def isReady (h : Hall ω) : Bool := !h.queue.entries.isEmpty || h.queue.isShut

/-- A taker comes. -/
def come (h : Hall ω) (ticket : Nat) (wait : Duration) : Hall ω :=
  if h.isReady then h.serve ticket
  else { h with waiting := h.waiting ++ [⟨ticket, h.deadline? wait⟩] }

/-- A waiting taker wakes and looks at the queue. -/
def wake (h : Hall ω) (ticket : Nat) : Hall ω :=
  if h.waiting.any (·.ticket = ticket) && h.isReady then h.serve ticket else h

/-- A waiting taker whose deadline has passed gives up. -/
def expire (h : Hall ω) (ticket : Nat) : Hall ω :=
  if h.waiting.any fun w => w.ticket = ticket && w.deadline.any (· ≤ h.now) then
    h.serve ticket
  else h

/-- Time passes. -/
def pass (h : Hall ω) (nanos : Nat) : Hall ω := { h with now := h.now + nanos }

end Hall

end Upkeep.Queue

import Upkeep.Operation.Basic

/-!
# The operation queue

A bounded queue of operations with distinct identifiers. More urgent operations come first, and
operations of one priority in the order of their arrival. An operation that is taken out stays
checked out until its taker is done with it, so that work in progress can be told from idleness.
-/

namespace Upkeep

/-- A queue of operations, the next one first. -/
structure Queue (ω : Type) where
  capacity : Nat
  entries : List (Operation ω) := []
  /-- The identifiers of the entries, the latest arrival first. -/
  known : List OperationId := []
  checkedOut : Nat := 0
  isShut : Bool := false

namespace Queue

variable {ω : Type}

def defaultCapacity : Nat := 50

/-- Why an operation is not taken in. -/
inductive Refusal where
  | shutDown | duplicate | full
  deriving DecidableEq, Inhabited

def Refusal.message : Refusal → String
  | .shutDown => "queue is shut down"
  | .duplicate => "operation id already queued"
  | .full => "queue is full"

/-! ## Changes -/

/-- Puts an operation in front of the first one that is less urgent. -/
def place (op : Operation ω) : List (Operation ω) → List (Operation ω)
  | [] => [op]
  | e :: r => if e.priority < op.priority then op :: e :: r else e :: place op r

/-- Why an operation is refused, if it is. -/
def refusal? (q : Queue ω) (op : Operation ω) : Option Refusal :=
  if q.isShut then some .shutDown
  else if op.id ∈ q.known then some .duplicate
  else if q.capacity ≤ q.entries.length then some .full
  else none

/-- Takes an operation in, or gives it back. -/
def enqueue (q : Queue ω) (op : Operation ω) : Except (Refusal × Operation ω) (Queue ω) :=
  match q.refusal? op with
  | some why => .error (why, op)
  | none => .ok { q with entries := place op q.entries, known := op.id :: q.known }

/-- Checks out the next operation. -/
def dequeue? (q : Queue ω) : Option (Operation ω × Queue ω) :=
  match q.entries with
  | [] => none
  | op :: r =>
    some (op, { q with
      entries := r, known := q.known.erase op.id, checkedOut := q.checkedOut + 1 })

/-- A taker is done with its operation. -/
def taskDone (q : Queue ω) : Queue ω := { q with checkedOut := q.checkedOut - 1 }

/-- Takes out the operation with an identifier, wherever it stands. -/
def remove? (q : Queue ω) (i : OperationId) : Option (Operation ω × Queue ω) :=
  match q.entries.find? (·.id = i) with
  | none => none
  | some op =>
    some (op, { q with entries := q.entries.eraseP (·.id = i), known := q.known.erase i })

/-- Takes nothing in from now on. What is queued may still be taken out. -/
def shut (q : Queue ω) : Queue ω := { q with isShut := true }

/-! ## Views -/

def ids (q : Queue ω) : List OperationId := q.entries.map (·.id)

def size (q : Queue ω) : Nat := q.entries.length

def isEmpty (q : Queue ω) : Bool := q.size = 0

/-- Nothing is queued and nothing is checked out. -/
def isDrained (q : Queue ω) : Bool := q.entries.isEmpty && q.checkedOut = 0

def peek? (q : Queue ω) : Option Summary := q.entries.head?.map (·.summary)

def contains (q : Queue ω) (i : OperationId) : Bool := i ∈ q.known

/-- How many operations of a priority are queued. -/
def bandSize (q : Queue ω) (p : Priority) : Nat := q.entries.countP (·.priority = p)

/-- The number of operations of each priority that has any, sorted by name. -/
def bands (q : Queue ω) : List (String × Nat) :=
  ([.critical, .high, .low, .normal] : List Priority).filterMap fun p =>
    if q.bandSize p = 0 then none else some (p.name, q.bandSize p)

/-- How long the oldest operation has been waiting. -/
def oldestAge (q : Queue ω) (now : Timestamp) : Duration :=
  q.entries.foldl (fun d op =>
    let age := op.created.elapsedTo now
    if d < age then age else d) .zero

/-- What a queue reports about itself. -/
structure Info where
  size : Nat
  capacity : Nat
  bands : List (String × Nat)
  oldestAge : Duration

def info (q : Queue ω) (now : Timestamp) : Info :=
  ⟨q.size, q.capacity, q.bands, q.oldestAge now⟩

end Queue

end Upkeep

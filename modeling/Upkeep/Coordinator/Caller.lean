import Upkeep.Coordinator.Basic

/-!
# Callers

A caller submits an operation or cancels a queued one. Each call first changes the queue and then,
in a step of its own, reports what it did to the operation's sink.
-/

namespace Upkeep

/-- A request to run an operation, under an identifier still to be checked. -/
structure SubmitRequest (ω : Type) where
  id : String
  kind : OperationKind := .sync
  priority : Priority := .normal
  requirement : Requirement := {}
  paths : List String := []
  job : ω

namespace Queue.Refusal

/-- The text for a submission that is refused. -/
def warning : Refusal → String
  | full => "Operation queue is full"
  | duplicate => "Operation id is already queued"
  | shutDown => "Operation manager is shut down"

end Queue.Refusal

namespace Telling

variable {ω : Type}

def operation : Telling ω → Submitted ω
  | accepted op => op
  | refused op _ => op
  | cancelled op => op

/-- The report, which gives the size of the queue at the time of reporting. -/
def report (q : Queue (Assignment ω)) : Telling ω → Report
  | accepted op =>
    .step "queued" .completed ("Operation queued with " ++ op.priority.name ++ " priority")
  | refused op why => .warning why.warning (some (.ofFields [
      ("operation_id", .str op.id.text), ("queue_size", .ofNat q.size),
      ("max_size", .ofNat q.capacity)]))
  | cancelled _ => .step "cancelled" .completed "Operation cancelled"

end Telling

namespace Coordinator

variable {ω : Type}

/-- Offers an operation to the queue, and says whether it was taken. A request without a valid
identifier is reported at once. -/
def submit (c : Coordinator ω) (r : SubmitRequest ω) (now : Timestamp) : Bool × Coordinator ω :=
  let work : Assignment ω := ⟨c.submissions, r.job⟩
  let c := { c with submissions := c.submissions + 1 }
  match OperationId.ofString r.id with
  | .error e =>
    (false, { c with audit := c.audit ++
      [⟨work, r.id, .error "invalid_operation_id" e.message none⟩] })
  | .ok id =>
    let op : Submitted ω := {
      id, kind := r.kind, priority := r.priority, requirement := r.requirement, paths := r.paths,
      created := now, work }
    match c.queue.enqueue op with
    | .ok q => (true, { c with queue := q, telling := c.telling ++ [.accepted op] })
    | .error (why, op) => (false, { c with telling := c.telling ++ [.refused op why] })

/-- Takes a queued operation out, and says whether there was one. -/
def cancel (c : Coordinator ω) (id : String) : Bool × Coordinator ω :=
  match OperationId.ofString id with
  | .error _ => (false, c)
  | .ok i =>
    match c.queue.remove? i with
    | none => (false, c)
    | some (op, q) => (true, { c with queue := q, telling := c.telling ++ [.cancelled op] })

/-- A caller makes the report that it owes. -/
def settle (c : Coordinator ω) (k : Nat) : Coordinator ω :=
  match c.telling[k]? with
  | none => c
  | some t =>
    { c with telling := c.telling.eraseIdx k }.tell t.operation (t.report c.queue)

/-- Raises the stop flag. -/
def raiseStop (c : Coordinator ω) : Coordinator ω := { c with isStopping := true }

/-- Shuts the queue. -/
def shutQueue (c : Coordinator ω) : Coordinator ω := { c with queue := c.queue.shut }

end Coordinator

end Upkeep

import Upkeep.Coordinator.Basic

/-!
# Workers

The steps of a worker. A worker that is not stopped goes round: it looks at the stop flag, dequeues
an operation, admits it, takes its locks, calls it, and gives everything back, or puts the operation
back into the queue and goes round again.

If a sink breaks down while a worker reports to it, the worker gives up the operation: its locks and
its entry are released, it is not counted, and it does not return to the queue.
-/

namespace Upkeep

/-- What the world brings to a step. -/
structure Surroundings where
  /-- The memory available. -/
  reading : UInt64 := 0
  now : Timestamp := default
  /-- The sink breaks down after the report of this step. -/
  sinkFails : Bool := false
  /-- What the callback reports to the operation's sink. -/
  reports : List Report := []
  /-- How the callback ends. -/
  outcome : Outcome := .success

/-- The report of a start. -/
def startReport {ω : Type} (op : Operation ω) : Report :=
  .step "execution" .started ("Starting " ++ op.kind.name ++ " operation")

/-- The report of an end. -/
def endReport {ω : Type} (op : Operation ω) (outcome : Outcome) : Report :=
  let duration := op.duration?.getD .zero
  match Operation.resultOf outcome with
  | .ok () =>
    .timed "execution" .completed ("Completed " ++ op.kind.name ++ " operation") duration
  | .error message => .error "execution_failed" message (some (.ofFields [
      ("operation_type", .str op.kind.name), ("duration_seconds", .ofReal duration.seconds)]))

def Verdict.ofOutcome (o : Outcome) : Verdict :=
  match Operation.resultOf o with
  | .ok () => .completed
  | .error _ => .failed

/-- The report of an operation that the queue does not take back. -/
def dropReport {ω : Type} (op : Operation ω) (why : Queue.Refusal) : Report :=
  .error "requeue_failed" ("Operation dropped: " ++ why.message)
    (some (.ofFields [("priority", .str op.priority.name)]))

/-- The report of an operation whose locks could not be taken. -/
def conflictReport {ω : Type} (op : Operation ω) : Report :=
  .warning "Could not acquire resource locks, requeueing"
    (some (.ofFields [("paths", .arr (op.paths.map .str))]))

namespace Coordinator

variable {ω : Type}

/-- Enters an operation and takes its locks, or takes it out again. -/
def start (c : Coordinator ω) (op : Submitted ω) (now : Timestamp) : Phase ω × Coordinator ω :=
  let begun := { op with started := some now }
  let c := c.enter begun
  match c.keeper.acquireAll c.files op.paths with
  | (some locks, files, keeper) =>
    (.starting begun locks,
      { c with files, keeper }.count fun m => { m with started := m.started + 1 })
  | (none, files, keeper) =>
    (.conflicted op,
      ({ c with files, keeper }.leave op.id).count fun m =>
        { m with resourceConflicts := m.resourceConflicts + 1 })

/-- The step of a worker in a phase: the phase after it and the new state. -/
def advance (c : Coordinator ω) (env : Surroundings) (phase : Phase ω) :
    Phase ω × Coordinator ω :=
  match phase with
  | .idle => (if c.isStopping then .stopped else .ready, c)
  | .ready =>
    match c.queue.dequeue? with
    | none => (.idle, c)
    | some (op, q) => (.admitting op, { c with queue := q })
  | .admitting op =>
    match Rejection.atPressure? c.monitor op.priority env.reading with
    | some why => (.warning op why, c)
    | none => (.weighing op, c)
  | .weighing op =>
    match Rejection.atHeadroom? c.monitor op.requirement.memoryMb env.reading with
    | some why => (.warning op why, c)
    | none => (.probing op op.paths, c)
  | .probing op [] => (.entering op, c)
  | .probing op (p :: rest) =>
    let (isLocked, files) := c.keeper.probe c.files p
    (if isLocked then .warning op (.inUse p) else .probing op rest, { c with files })
  | .warning op why =>
    (if env.sinkFails then .finishing else .rejecting op why, c.tell op (why.report env.reading))
  | .rejecting op why => (.requeueing op, c.count (·.reject why))
  | .requeueing op =>
    match c.queue.enqueue op with
    | .ok q => (.finishing, { c with queue := q })
    | .error (why, op) => (.dropping op why, c)
  | .dropping op why =>
    (if env.sinkFails then .finishing else .losing, c.tell op (dropReport op why))
  | .losing => (.finishing, c.count fun m => { m with dropped := m.dropped + 1 })
  | .entering op => c.start op env.now
  | .conflicted op =>
    (if env.sinkFails then .finishing else .requeueing op, c.tell op (conflictReport op))
  | .starting op locks =>
    (if env.sinkFails then .releasing op.id locks none else .running op locks,
      c.tell op (startReport op))
  | .running op locks =>
    (.reporting { op with completed := some env.now } locks env.outcome,
      env.reports.foldl (·.tell op) c)
  | .reporting op locks outcome =>
    (.releasing op.id locks (if env.sinkFails then none else some (.ofOutcome outcome)),
      c.tell op (endReport op outcome))
  | .releasing id [] verdict => (.leaving id verdict, c)
  | .releasing id (l :: rest) verdict =>
    let (files, keeper) := c.keeper.release c.files l
    (.releasing id rest verdict, { c with files, keeper })
  | .leaving id verdict => (.finishing, (c.leave id).count (·.finish verdict))
  | .finishing => (.idle, { c with queue := c.queue.taskDone })
  | .stopped => (.stopped, c)

/-- The step of the worker with a number. -/
def work (c : Coordinator ω) (env : Surroundings) (w : Nat) : Coordinator ω :=
  match c.workers[w]? with
  | none => c
  | some phase =>
    let (phase, c) := c.advance env phase
    { c with workers := c.workers.set w phase }

end Coordinator

end Upkeep

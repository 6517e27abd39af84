import Upkeep.Coordinator.Basic

/-!
# Status of a coordinator
-/

namespace Upkeep

/-- What the running operations have declared that they need. -/
structure ResourceUsage where
  memoryMb : UInt64 := 0
  cpuPercent : Binary64 := .zero

/-- A snapshot of a coordinator. -/
structure CoordinatorStatus where
  runningOperations : Nat
  maxConcurrent : Nat
  queue : Queue.Info
  pressure : Pressure
  availableMb : UInt64
  usage : ResourceUsage
  metrics : Metrics

namespace Coordinator

variable {ω : Type}

/-- The sum of the requirements of the running operations. -/
def usage (c : Coordinator ω) : ResourceUsage :=
  c.running.foldl (fun u (_, op) => {
    memoryMb := u.memoryMb + op.requirement.memoryMb
    cpuPercent := u.cpuPercent.add op.requirement.cpuPercent }) {}

def status (c : Coordinator ω) (reading : UInt64) (now : Timestamp) : CoordinatorStatus where
  runningOperations := c.running.length
  maxConcurrent := c.config.maxConcurrent.toNat
  queue := c.queue.info now
  pressure := c.monitor.pressure reading
  availableMb := Memory.toMb reading
  usage := c.usage
  metrics := c.metrics

/-- Nothing is running, queued or in a worker's hands. -/
def isIdle (c : Coordinator ω) : Bool := c.running.isEmpty && c.queue.isDrained

/-- One running operation comes before another: it started earlier, or at the same time and its
identifier is smaller. -/
def startsBefore (a b : Summary) : Bool :=
  let order : Ordering := match a.started, b.started with
    | none, none => .eq
    | none, some _ => .lt
    | some _, none => .gt
    | some s, some t => s.compare t
  match order with
  | .lt => true
  | .eq => a.id.text ≤ b.id.text
  | .gt => false

/-- The running operations, the oldest start first. -/
def runningOperations (c : Coordinator ω) : List Summary :=
  (c.running.map (·.2)).mergeSort startsBefore

/-- The paths that somebody holds, of those given. -/
def conflicts (c : Coordinator ω) (paths : List String) : List String :=
  paths.filter (c.keeper.isLocked c.files)

end Coordinator

end Upkeep

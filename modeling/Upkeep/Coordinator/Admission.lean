import Upkeep.Audit.Event
import Upkeep.Memory.Monitor
import Upkeep.Operation.Basic

/-!
# Admission

Before an operation starts, memory is read twice and its paths are looked at in order. The first
reading decides about the pressure: under a warning only urgent operations go on. The second decides
whether the operation leaves enough. A rejection has one reason, and one report.
-/

namespace Upkeep

/-- Why an operation may not start now. -/
inductive Rejection where
  | criticalPressure
  | pressure (priority : Priority)
  | noHeadroom (requiredMb : UInt64)
  | inUse (path : String)
  deriving DecidableEq

namespace Rejection

/-- The reason that lies in memory, as opposed to a held path. -/
def isMemory : Rejection → Bool
  | inUse _ => false
  | _ => true

/-- The reason that a first reading gives. -/
def atPressure? (m : MemoryMonitor) (priority : Priority) (available : UInt64) :
    Option Rejection :=
  match m.pressure available with
  | .critical => some .criticalPressure
  | .warning => if priority < .high then some (.pressure priority) else none
  | .normal => none

/-- The reason that a second reading gives. -/
def atHeadroom? (m : MemoryMonitor) (requiredMb available : UInt64) : Option Rejection :=
  if m.allows available requiredMb then none else some (.noHeadroom requiredMb)

/-- The details that tell what memory there is. -/
def memoryDetails (available : UInt64) : Option Json :=
  some (.ofFields [("available_mb", .ofWord (Memory.toMb available))])

/-- The report of a rejection, with a reading taken for it. -/
def report (available : UInt64) : Rejection → Report
  | criticalPressure =>
    .warning "Critical memory pressure, throttling operations" (memoryDetails available)
  | pressure p => .warning ("Memory pressure, skipping " ++ p.name ++ " priority") none
  | noHeadroom mb =>
    .warning ("Insufficient memory for " ++ toString mb.toNat ++ "MB requirement")
      (memoryDetails available)
  | inUse path => .warning ("Resource already in use: " ++ path) none

end Rejection

end Upkeep

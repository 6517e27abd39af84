import Upkeep.Json.Printer
import Upkeep.Json.Tree

/-!
# Resource requirements

What an operation declares that it needs. As JSON it is an object with four fields, or the array of
their values; fields of other names are passed over.
-/

namespace Upkeep

/-- Declared needs of an operation. -/
structure Requirement where
  memoryMb : UInt64 := 0
  cpuPercent : Binary64 := .zero
  ioWeight : UInt32 := 1
  canShare : Bool := true
  deriving DecidableEq

namespace Requirement

/-- The same needs; the sign of a zero does not count. -/
def sameAs (r s : Requirement) : Bool :=
  r.memoryMb = s.memoryMb && r.cpuPercent.sameAs s.cpuPercent && r.ioWeight = s.ioWeight &&
    r.canShare = s.canShare

def toJson (r : Requirement) : Json :=
  .obj [("memory_mb", .ofWord r.memoryMb), ("cpu_percent", .ofReal r.cpuPercent),
    ("io_weight", .ofNat r.ioWeight.toNat), ("can_share", .bool r.canShare)]

/-- The requirement with these four parts. -/
def ofParts? (memory cpu weight share : Json.Tree) : Option Requirement := do
  return {
    memoryMb := ← memory.word?
    cpuPercent := ← cpu.real?
    ioWeight := UInt32.ofNat (← weight.natBelow? UInt32.size)
    canShare := ← share.bool? }

def ofTree? (t : Json.Tree) : Option Requirement :=
  match t with
  | .arr [m, c, w, s] => ofParts? m c w s
  | _ => do
    let fs ← t.fields?
    ofParts? (← Json.Tree.required? fs "memory_mb") (← Json.Tree.required? fs "cpu_percent")
      (← Json.Tree.required? fs "io_weight") (← Json.Tree.required? fs "can_share")

end Requirement

end Upkeep

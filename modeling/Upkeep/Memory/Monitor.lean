/-!
# Memory pressure

Available memory is a number of bytes, measured against two thresholds that are given in megabytes.
Amounts that exceed a word of 64 bits count as the largest word.
-/

namespace Upkeep

namespace Memory

def bytesPerMb : UInt64 := 1048576

/-- The product, or the largest word. -/
def saturatingMul (a b : UInt64) : UInt64 :=
  UInt64.ofNat (min (a.toNat * b.toNat) (UInt64.size - 1))

/-- Megabytes in bytes. -/
def ofMb (mb : UInt64) : UInt64 := saturatingMul bytesPerMb mb

/-- Whole megabytes of an amount in bytes. -/
def toMb (bytes : UInt64) : UInt64 := bytes / bytesPerMb

end Memory

/-- How scarce memory is. -/
inductive Pressure where
  | normal | warning | critical
  deriving DecidableEq, Inhabited

namespace Pressure

def all : List Pressure := [normal, warning, critical]

def name : Pressure → String
  | normal => "normal"
  | warning => "warning"
  | critical => "critical"

def ofName? (s : String) : Option Pressure := all.find? (·.name = s)

end Pressure

/-- The thresholds in bytes. -/
structure MemoryMonitor where
  warning : UInt64
  critical : UInt64
  deriving DecidableEq

namespace MemoryMonitor

/-- The monitor with thresholds in megabytes. -/
def ofMb (warningMb criticalMb : UInt64) : MemoryMonitor :=
  ⟨Memory.ofMb warningMb, Memory.ofMb criticalMb⟩

/-- The pressure at a reading. -/
def pressure (m : MemoryMonitor) (available : UInt64) : Pressure :=
  if available < m.critical then .critical
  else if available < m.warning then .warning
  else .normal

/-- Whether a requirement leaves more than the critical threshold of a reading. -/
def allows (m : MemoryMonitor) (available requiredMb : UInt64) : Bool :=
  let required := Memory.ofMb requiredMb
  required ≤ available && m.critical < available - required

end MemoryMonitor

end Upkeep

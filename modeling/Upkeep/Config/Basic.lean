import Upkeep.Json.Printer
import Upkeep.Memory.Monitor
import Upkeep.Time.Duration

/-!
# Configuration

The settings of the coordinator and of transactions, and the rules that they have to obey.
-/

namespace Upkeep

/-- Settings of the coordinator. -/
structure CoordinatorConfig where
  maxConcurrent : UInt64 := 3
  queueCapacity : UInt64 := 50
  memoryWarningMb : UInt64 := 512
  memoryCriticalMb : UInt64 := 256
  lockDir : String := "/tmp/operation_locks"
  dequeueWaitMs : UInt64 := 1000
  idleSleepMs : UInt64 := 1000
  admissionBackoffMs : UInt64 := 1000
  lockBackoffMs : UInt64 := 2000
  idlePollMs : UInt64 := 500
  shutdownJoinMs : UInt64 := 5000
  deriving DecidableEq

/-- Settings of transactions. -/
structure TransactionConfig where
  timeoutSecs : UInt64 := 3600
  stallMaxAgeSecs : UInt64 := 3600
  deriving DecidableEq

/-- All settings. -/
structure Config where
  coordinator : CoordinatorConfig := {}
  transactions : TransactionConfig := {}
  deriving DecidableEq

/-- What is wrong with settings. -/
inductive InvalidConfig where
  | noWorkers
  | noCapacity
  | thresholdOrder (critical warning : UInt64)
  | noLockDir
  | intervalTooLong (name : String) (millis : UInt64)
  | noTimeout
  /-- A number that the file format cannot express. -/
  | notStorable
  deriving DecidableEq

/-- One day in milliseconds, the longest interval. -/
def maxIntervalMs : UInt64 := 86400000

/-- Decimal digits. -/
private def wordText (n : UInt64) : String := toString n.toNat

def InvalidConfig.reason : InvalidConfig → String
  | .noWorkers => "max_concurrent must be at least 1"
  | .noCapacity => "queue_capacity must be at least 1"
  | .thresholdOrder critical warning =>
    "memory_critical_mb (" ++ wordText critical ++ ") must be below memory_warning_mb (" ++
      wordText warning ++ ")"
  | .noLockDir => "lock_dir cannot be empty"
  | .intervalTooLong name millis =>
    name ++ " (" ++ wordText millis ++ ") exceeds the maximum of " ++ wordText maxIntervalMs
  | .noTimeout => "transaction timeout_secs must be at least 1"
  | .notStorable => "out-of-range value for u64 type"

def InvalidConfig.message (i : InvalidConfig) : String := "invalid config value: " ++ i.reason

namespace CoordinatorConfig

/-- The intervals by name, in the order in which they are checked. -/
def intervals (c : CoordinatorConfig) : List (String × UInt64) :=
  [("dequeue_wait_ms", c.dequeueWaitMs), ("idle_sleep_ms", c.idleSleepMs),
    ("admission_backoff_ms", c.admissionBackoffMs), ("lock_backoff_ms", c.lockBackoffMs),
    ("idle_poll_ms", c.idlePollMs), ("shutdown_join_ms", c.shutdownJoinMs)]

/-- The first rule that is broken. -/
def invalid? (c : CoordinatorConfig) : Option InvalidConfig :=
  if c.maxConcurrent = 0 then some .noWorkers
  else if c.queueCapacity = 0 then some .noCapacity
  else if c.memoryWarningMb ≤ c.memoryCriticalMb then
    some (.thresholdOrder c.memoryCriticalMb c.memoryWarningMb)
  else if c.lockDir.isEmpty then some .noLockDir
  else (c.intervals.find? fun (_, ms) => maxIntervalMs < ms).map fun (name, ms) =>
    .intervalTooLong name ms

/-- The same settings with all intervals but the last set to a duration, in milliseconds modulo
`2 ^ 64`. -/
def withIntervals (c : CoordinatorConfig) (d : Duration) : CoordinatorConfig :=
  let ms := d.millisWord
  { c with
    dequeueWaitMs := ms, idleSleepMs := ms, admissionBackoffMs := ms, lockBackoffMs := ms,
    idlePollMs := ms }

def dequeueWait (c : CoordinatorConfig) : Duration := .ofMillis c.dequeueWaitMs
def idleSleep (c : CoordinatorConfig) : Duration := .ofMillis c.idleSleepMs
def admissionBackoff (c : CoordinatorConfig) : Duration := .ofMillis c.admissionBackoffMs
def lockBackoff (c : CoordinatorConfig) : Duration := .ofMillis c.lockBackoffMs
def idlePoll (c : CoordinatorConfig) : Duration := .ofMillis c.idlePollMs
def shutdownJoin (c : CoordinatorConfig) : Duration := .ofMillis c.shutdownJoinMs

/-- The memory monitor with the configured thresholds. -/
def monitor (c : CoordinatorConfig) : MemoryMonitor :=
  .ofMb c.memoryWarningMb c.memoryCriticalMb

end CoordinatorConfig

namespace TransactionConfig

def invalid? (c : TransactionConfig) : Option InvalidConfig :=
  if c.timeoutSecs = 0 then some .noTimeout else none

def timeout (c : TransactionConfig) : Duration := .ofSecs c.timeoutSecs
def stallMaxAge (c : TransactionConfig) : Duration := .ofSecs c.stallMaxAgeSecs

end TransactionConfig

/-- The first rule that is broken, the coordinator's before those of transactions. -/
def Config.invalid? (c : Config) : Option InvalidConfig :=
  c.coordinator.invalid? <|> c.transactions.invalid?

end Upkeep

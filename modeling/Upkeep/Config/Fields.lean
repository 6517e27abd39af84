import Upkeep.Config.Basic

/-!
# Settings by name

A configuration text, in whatever format, is a tree of sections and values. Each section may give
its settings by name, or as a list in the order of their declaration. A setting that is not given
has its default; a name that is not known or is given twice is refused.
-/

namespace Upkeep

/-- A configuration text taken apart. -/
inductive ConfigTree where
  | int (i : Int)
  | text (s : String)
  | list (items : List ConfigTree)
  | table (fields : List (String × ConfigTree))
  /-- A value of a sort that no setting has. -/
  | other
  deriving Inhabited

namespace ConfigTree

/-- A value that is stored as a word. -/
def word? : ConfigTree → Option UInt64
  | .int i => if 0 ≤ i ∧ i < UInt64.size then some (UInt64.ofNat i.toNat) else none
  | _ => none

def text? : ConfigTree → Option String
  | .text s => some s
  | _ => none

/-- A setting: its name, and how a value changes the settings. -/
structure Setting (σ : Type) where
  name : String
  set : σ → ConfigTree → Option σ

def wordSetting {σ : Type} (name : String) (set : σ → UInt64 → σ) : Setting σ :=
  ⟨name, fun s t => (set s) <$> t.word?⟩

def textSetting {σ : Type} (name : String) (set : σ → String → σ) : Setting σ :=
  ⟨name, fun s t => (set s) <$> t.text?⟩

/-- Applies the settings that a table names, each at most once. -/
def applyFields {σ : Type} (spec : List (Setting σ)) (s : σ) (seen : List String) :
    List (String × ConfigTree) → Option σ
  | [] => some s
  | (name, t) :: r => do
    let setting ← spec.find? (·.name = name)
    if name ∈ seen then none
    applyFields spec (← setting.set s t) (name :: seen) r

/-- Applies settings in order; `surplus` says whether there may be more values than settings. -/
def applyItems {σ : Type} (surplus : Bool) : List (Setting σ) → σ → List ConfigTree → Option σ
  | _, s, [] => some s
  | [], s, _ :: _ => if surplus then some s else none
  | setting :: spec, s, t :: r => do applyItems surplus spec (← setting.set s t) r

/-- Applies a section. -/
def apply {σ : Type} (surplus : Bool) (spec : List (Setting σ)) (s : σ) : ConfigTree → Option σ
  | .table fields => applyFields spec s [] fields
  | .list items => applyItems surplus spec s items
  | _ => none

end ConfigTree

open ConfigTree

namespace CoordinatorConfig

/-- The settings in the order of their declaration. -/
def settings : List (Setting CoordinatorConfig) := [
  wordSetting "max_concurrent" fun c v => { c with maxConcurrent := v },
  wordSetting "queue_capacity" fun c v => { c with queueCapacity := v },
  wordSetting "memory_warning_mb" fun c v => { c with memoryWarningMb := v },
  wordSetting "memory_critical_mb" fun c v => { c with memoryCriticalMb := v },
  textSetting "lock_dir" fun c v => { c with lockDir := v },
  wordSetting "dequeue_wait_ms" fun c v => { c with dequeueWaitMs := v },
  wordSetting "idle_sleep_ms" fun c v => { c with idleSleepMs := v },
  wordSetting "admission_backoff_ms" fun c v => { c with admissionBackoffMs := v },
  wordSetting "lock_backoff_ms" fun c v => { c with lockBackoffMs := v },
  wordSetting "idle_poll_ms" fun c v => { c with idlePollMs := v },
  wordSetting "shutdown_join_ms" fun c v => { c with shutdownJoinMs := v }]

/-- The values by name, in the order of their declaration. -/
def entries (c : CoordinatorConfig) : List (String × (UInt64 ⊕ String)) := [
  ("max_concurrent", .inl c.maxConcurrent), ("queue_capacity", .inl c.queueCapacity),
  ("memory_warning_mb", .inl c.memoryWarningMb), ("memory_critical_mb", .inl c.memoryCriticalMb),
  ("lock_dir", .inr c.lockDir), ("dequeue_wait_ms", .inl c.dequeueWaitMs),
  ("idle_sleep_ms", .inl c.idleSleepMs), ("admission_backoff_ms", .inl c.admissionBackoffMs),
  ("lock_backoff_ms", .inl c.lockBackoffMs), ("idle_poll_ms", .inl c.idlePollMs),
  ("shutdown_join_ms", .inl c.shutdownJoinMs)]

end CoordinatorConfig

namespace TransactionConfig

/-- The settings in the order of their declaration. -/
def settings : List (Setting TransactionConfig) := [
  wordSetting "timeout_secs" fun c v => { c with timeoutSecs := v },
  wordSetting "stall_max_age_secs" fun c v => { c with stallMaxAgeSecs := v }]

/-- The values by name, in the order of their declaration. -/
def entries (c : TransactionConfig) : List (String × (UInt64 ⊕ String)) :=
  [("timeout_secs", .inl c.timeoutSecs), ("stall_max_age_secs", .inl c.stallMaxAgeSecs)]

end TransactionConfig

namespace Config

/-- The sections. -/
def sections (surplus : Bool) : List (Setting Config) := [
  ⟨"coordinator", fun c t =>
    (fun s => { c with coordinator := s }) <$> apply surplus CoordinatorConfig.settings {} t⟩,
  ⟨"transactions", fun c t =>
    (fun s => { c with transactions := s }) <$> apply surplus TransactionConfig.settings {} t⟩]

/-- The configuration that a text gives. -/
def ofTree? (surplus : Bool) (t : ConfigTree) : Option Config :=
  apply surplus (sections surplus) {} t

/-- The sections with their entries. -/
def entries (c : Config) : List (String × List (String × (UInt64 ⊕ String))) :=
  [("coordinator", c.coordinator.entries), ("transactions", c.transactions.entries)]

end Config

end Upkeep

import Upkeep.Coordinator.Worker
import Upkeep.Proofs.Locks.Probes
import Upkeep.Proofs.Memory.Thresholds

/-!
# The admission of an operation

**Visits.** A worker decides about an operation in several steps: it reads memory twice, looks at
the paths, and reports and counts a rejection. In between others may do as they like, so each step
is a `Visit` to a coordinator in any state. A step that looks leaves the coordinator as it is, but
for a handle (`Visit.rests_of_isLooking`).

**Reasons.** An operation is admitted if both readings suffice, in exact numbers of bytes
(`MemoryMonitor.Suffices`), and none of its paths is found locked. Otherwise a reason applies, and
that is a path only if memory suffices (`Rejection.Applies`). The worker comes to the one or to the
other: `Phase.comes_probing` says so of the paths, by induction on them, and `Phase.comes_admitting`
of the whole.

**Admissions.** So each admission goes as told by `Considered` (`exists_considered`): the operation
is admitted and nothing is reported or counted, or it is `Rejected` with one warning and one count,
unless the sink breaks down with the warning. If nobody else acts meanwhile, the lock files as they
are at the beginning decide, and nothing else happens to the coordinator (`Undisturbed`).
-/

namespace Upkeep

variable {ω : Type}

/-! ## Memory -/

/-- Two readings suffice for an operation: at the first there is no pressure that keeps it back, and
of the second it leaves more than the critical threshold. -/
structure MemoryMonitor.Suffices (m : MemoryMonitor) (op : Submitted ω) (first second : UInt64) :
    Prop where
  notCritical : m.critical.toNat ≤ first.toNat
  urgent : m.warning.toNat ≤ first.toNat ∨ Priority.high.rank ≤ op.priority.rank
  headroom : (m.critical.toNat : ℤ) < second.toNat - op.requirement.memoryMb.toNat * 2 ^ 20

/-- A reason for a rejection applies, given two readings and which paths are found locked. The
worker comes to it after so many looks, and looks no further. -/
def Rejection.Applies (m : MemoryMonitor) (op : Submitted ω) (first second : UInt64)
    (isLocked : Nat → String → Bool) (looks : Nat) : Rejection → Prop
  | .criticalPressure => looks = 1 ∧ first.toNat < m.critical.toNat
  | .pressure priority => looks = 1 ∧ priority = op.priority ∧
      m.critical.toNat ≤ first.toNat ∧ first.toNat < m.warning.toNat ∧
      priority.rank < Priority.high.rank
  | .noHeadroom mb => looks = 2 ∧ mb = op.requirement.memoryMb ∧
      m.critical.toNat ≤ first.toNat ∧
      (m.warning.toNat ≤ first.toNat ∨ Priority.high.rank ≤ op.priority.rank) ∧
      (second.toNat : ℤ) - mb.toNat * 2 ^ 20 ≤ m.critical.toNat
  | .inUse path => m.Suffices op first second ∧ ∃ i, looks = i + 3 ∧ op.paths[i]? = some path ∧
      isLocked i path ∧ ∀ j p, j < i → op.paths[j]? = some p → isLocked j p = false

/-- No path is found locked. -/
def AllFree (paths : List String) (isLocked : Nat → String → Bool) : Prop :=
  ∀ i p, paths[i]? = some p → isLocked i p = false

namespace Rejection

variable {m : MemoryMonitor} {op : Submitted ω} {first second : UInt64}
  {isLocked : Nat → String → Bool} {looks : Nat} {why : Rejection}

/-- Reasons that lie in memory go first, and apply exactly if memory does not suffice. -/
theorem Applies.isMemory_iff (h : why.Applies m op first second isLocked looks) :
    why.isMemory = true ↔ ¬m.Suffices op first second := by
  cases why with
  | criticalPressure =>
    refine iff_of_true rfl fun hsuffices => ?_
    exact Nat.not_lt.2 hsuffices.notCritical h.2
  | pressure priority =>
    obtain ⟨-, rfl, -, hlow, hrank⟩ := h
    refine iff_of_true rfl fun hsuffices => ?_
    have := hsuffices.urgent
    omega
  | noHeadroom mb =>
    obtain ⟨-, rfl, -, -, hroom⟩ := h
    refine iff_of_true rfl fun hsuffices => ?_
    have := hsuffices.headroom
    omega
  | inUse path => exact iff_of_false Bool.false_ne_true (not_not.2 h.1)

theorem Applies.exists_isLocked (h : why.Applies m op first second isLocked looks)
    (hsuffices : m.Suffices op first second) :
    ∃ i p, looks = i + 3 ∧ op.paths[i]? = some p ∧ isLocked i p = true := by
  cases why with
  | inUse path =>
    obtain ⟨-, i, hlooks, hi, hlocked, -⟩ := h
    exact ⟨i, path, hlooks, hi, hlocked⟩
  | _ => exact absurd hsuffices (h.isMemory_iff.1 rfl)

/-- A first reading gives a reason, or there is no pressure that keeps the operation back. -/
theorem atPressure?_cases (m : MemoryMonitor) (op : Submitted ω) (first second : UInt64)
    (isLocked : Nat → String → Bool) :
    (∃ why, atPressure? m op.priority first = some why ∧
      why.Applies m op first second isLocked 1) ∨
    atPressure? m op.priority first = none ∧ m.critical.toNat ≤ first.toNat ∧
      (m.warning.toNat ≤ first.toNat ∨ Priority.high.rank ≤ op.priority.rank) := by
  rw [atPressure?, MemoryMonitor.pressure]
  simp only [UInt64.lt_iff_toNat_lt]
  by_cases hcritical : first.toNat < m.critical.toNat
  · rw [if_pos hcritical]
    exact .inl ⟨.criticalPressure, rfl, rfl, hcritical⟩
  by_cases hwarning : first.toNat < m.warning.toNat
  · rw [if_neg hcritical, if_pos hwarning]
    dsimp only
    by_cases hlow : op.priority < .high
    · rw [if_pos hlow]
      exact .inl ⟨.pressure op.priority, rfl, rfl, rfl, Nat.not_lt.1 hcritical, hwarning, hlow⟩
    · rw [if_neg hlow]
      exact .inr ⟨rfl, Nat.not_lt.1 hcritical, .inr (Nat.not_lt.1 hlow)⟩
  · rw [if_neg hcritical, if_neg hwarning]
    exact .inr ⟨rfl, Nat.not_lt.1 hcritical, .inl (Nat.not_lt.1 hwarning)⟩

/-- If there is no such pressure, a second reading gives a reason, or both suffice. -/
theorem atHeadroom?_cases (hcritical : m.critical.toNat ≤ first.toNat)
    (hurgent : m.warning.toNat ≤ first.toNat ∨ Priority.high.rank ≤ op.priority.rank)
    (second : UInt64) (isLocked : Nat → String → Bool) :
    (∃ why, atHeadroom? m op.requirement.memoryMb second = some why ∧
      why.Applies m op first second isLocked 2) ∨
    atHeadroom? m op.requirement.memoryMb second = none ∧ m.Suffices op first second := by
  have hallows := m.allows_iff_lt second op.requirement.memoryMb
  rw [atHeadroom?]
  by_cases hroom : m.allows second op.requirement.memoryMb
  · rw [if_pos hroom]
    exact .inr ⟨rfl, hcritical, hurgent, hallows.1 hroom⟩
  · rw [if_neg hroom]
    have hnone := Int.not_lt.1 (mt hallows.2 hroom)
    exact .inl ⟨.noHeadroom _, rfl, rfl, rfl, hcritical, hurgent, hnone⟩

end Rejection

/-! ## What a rejection leaves behind -/

namespace Rejection

/-- A rejection is counted: one of two counters goes up by one, and the others stay. -/
structure Counted (why : Rejection) (before after : Metrics) : Prop where
  memoryThrottles :
    after.memoryThrottles = before.memoryThrottles + if why.isMemory then 1 else 0
  resourceConflicts :
    after.resourceConflicts = before.resourceConflicts + if why.isMemory then 0 else 1
  others : after.started = before.started ∧ after.completed = before.completed ∧
    after.failed = before.failed ∧ after.dropped = before.dropped

/-- The audit log goes on with a single warning, which tells why the operation is rejected. -/
def Warned (why : Rejection) (reading : UInt64) (op : Submitted ω)
    (before after : List (AuditEntry ω)) : Prop :=
  ∃ text details, why.report reading = .warning text details ∧
    after = before ++ [⟨op.work, op.id.text, .warning text details⟩]

theorem counted_reject (why : Rejection) (m : Metrics) : why.Counted m (m.reject why) := by
  unfold Metrics.reject
  cases hmemory : why.isMemory with
  | true => exact ⟨by simp [hmemory], by simp [hmemory], rfl, rfl, rfl, rfl⟩
  | false => exact ⟨by simp [hmemory], by simp [hmemory], rfl, rfl, rfl, rfl⟩

theorem Counted.eq {why : Rejection} {before after : Metrics} (h : why.Counted before after) :
    after = { before with
      memoryThrottles := before.memoryThrottles + if why.isMemory then 1 else 0
      resourceConflicts := before.resourceConflicts + if why.isMemory then 0 else 1 } := by
  obtain ⟨hmemory, hconflicts, hstarted, hcompleted, hfailed, hdropped⟩ := h
  cases after
  rw [Metrics.mk.injEq]
  exact ⟨hstarted, hcompleted, hfailed, hmemory, hconflicts, hdropped⟩

theorem warned_tell (why : Rejection) (reading : UInt64) (op : Submitted ω) (c : Coordinator ω) :
    why.Warned reading op c.audit (c.tell op (why.report reading)).audit := by
  cases why <;> exact ⟨_, _, rfl, rfl⟩

end Rejection

/-! ## Visits -/

/-- A step of a worker: the coordinator as it finds it, whatever others have done by then, and what
the world brings. -/
structure Visit (ω : Type) where
  found : Coordinator ω
  env : Surroundings

/-- The phase of a worker that was in a phase, after some visits. -/
def Phase.after (phase : Phase ω) (visits : Nat → Visit ω) : Nat → Phase ω
  | 0 => phase
  | n + 1 => ((visits n).found.advance (visits n).env (phase.after visits n)).1

/-- The worker is about to read memory, or to look at the paths. -/
def Phase.isLooking : Phase ω → Bool
  | admitting _ | weighing _ | probing .. => true
  | _ => false

/-- The coordinator when more handles have been given out. -/
def Coordinator.withHandles (c : Coordinator ω) (h : Nat) : Coordinator ω :=
  { c with files := c.files.withHandles h }

namespace Visit

/-- The coordinator as the worker leaves it. -/
def left (v : Visit ω) (phase : Phase ω) : Coordinator ω := (v.found.advance v.env phase).2

/-- The worker uses up a handle at most. -/
def Rests (v : Visit ω) (phase : Phase ω) : Prop :=
  ∃ h, v.found.files.nextHandle ≤ h ∧ v.left phase = v.found.withHandles h

/-- A path is locked when the worker comes. -/
def isLocked (v : Visit ω) (path : String) : Bool := v.found.keeper.isLocked v.found.files path

theorem rests_of_left {v : Visit ω} {phase : Phase ω} (h : v.left phase = v.found) :
    v.Rests phase := ⟨v.found.files.nextHandle, Nat.le_refl _, h⟩

theorem rests_of_isLooking {v : Visit ω} (hw : v.found.files.WellFormed) {phase : Phase ω}
    (h : phase.isLooking) : v.Rests phase := by
  cases phase with
  | admitting op =>
    refine rests_of_left ?_
    simp only [left, Coordinator.advance]
    split <;> rfl
  | weighing op =>
    refine rests_of_left ?_
    simp only [left, Coordinator.advance]
    split <;> rfl
  | probing op paths =>
    cases paths with
    | nil => exact rests_of_left rfl
    | cons p rest =>
      obtain ⟨n, hle, hfiles⟩ := LockKeeper.files_probe hw v.found.keeper p
      refine ⟨n, hle, ?_⟩
      show { v.found with files := (v.found.keeper.probe v.found.files p).2 } = _
      rw [hfiles]
      rfl
  | _ => cases h

end Visit

/-! ## What the worker comes to -/

namespace Phase

variable {phase : Phase ω} {visits : Nat → Visit ω} {op : Submitted ω} {m : MemoryMonitor}

theorem after_succ (phase : Phase ω) (visits : Nat → Visit ω) (n : Nat) :
    phase.after visits (n + 1) =
      (phase.after visits 1).after (fun k => visits (k + 1)) n := by
  induction n with
  | zero => rfl
  | succ n ih =>
    rw [after, ih]
    rfl

/-- The worker looks, so many times, and then it is in a phase such that something holds. -/
def Comes (phase : Phase ω) (visits : Nat → Visit ω) (P : Nat → Phase ω → Prop) : Prop :=
  ∃ n, (∀ k < n, (phase.after visits k).isLooking) ∧ P n (phase.after visits n)

theorem Comes.now {P : Nat → Phase ω → Prop} (h : P 0 phase) : phase.Comes visits P :=
  ⟨0, nofun, h⟩

theorem Comes.later {P : Nat → Phase ω → Prop} (hlooking : phase.isLooking)
    (h : (phase.after visits 1).Comes (fun k => visits (k + 1)) fun n => P (n + 1)) :
    phase.Comes visits P := by
  obtain ⟨n, hbefore, hp⟩ := h
  refine ⟨n + 1, fun k hk => ?_, ?_⟩
  · cases k with
    | zero => exact hlooking
    | succ k =>
      rw [after_succ]
      exact hbefore k (Nat.lt_of_succ_lt_succ hk)
  · rw [after_succ]
    exact hp

/-- The worker comes to the first path that it finds locked, or admits the operation. -/
theorem comes_probing (op : Submitted ω) (paths : List String) (visits : Nat → Visit ω) :
    (probing op paths).Comes visits fun n phase =>
      (phase = .entering op ∧ n = paths.length + 1 ∧ AllFree paths fun i => (visits i).isLocked) ∨
      ∃ i p, phase = .warning op (.inUse p) ∧ n = i + 1 ∧ paths[i]? = some p ∧
        (visits i).isLocked p ∧
        ∀ j q, j < i → paths[j]? = some q → (visits j).isLocked q = false := by
  induction paths generalizing visits with
  | nil => exact .later rfl (.now (.inl ⟨rfl, rfl, nofun⟩))
  | cons p rest ih =>
    have hnext : (probing op (p :: rest)).after visits 1 =
        if (visits 0).isLocked p then .warning op (.inUse p) else .probing op rest := rfl
    refine .later rfl ?_
    rw [hnext]
    cases hlocked : (visits 0).isLocked p with
    | true => exact .now (.inr ⟨0, p, rfl, rfl, rfl, hlocked, nofun⟩)
    | false =>
      obtain ⟨n, hbefore, hlast⟩ := ih fun k => visits (k + 1)
      refine ⟨n, hbefore, ?_⟩
      rcases hlast with ⟨hentering, rfl, hfree⟩ | ⟨i, q, hwarning, rfl, hi, hat, hfirst⟩
      · refine .inl ⟨hentering, rfl, fun j q hj => ?_⟩
        cases j with
        | zero => exact Option.some.inj hj ▸ hlocked
        | succ j => exact hfree j q hj
      · refine .inr ⟨i + 1, q, hwarning, rfl, hi, hat, fun j q' hlt hj => ?_⟩
        cases j with
        | zero => exact Option.some.inj hj ▸ hlocked
        | succ j => exact hfirst j q' (Nat.lt_of_succ_lt_succ hlt) hj

/-- The worker admits an operation if memory suffices and the paths are free, and otherwise has a
reason to reject it. -/
theorem comes_admitting (op : Submitted ω) (hmonitor : ∀ k, (visits k).found.monitor = m) :
    let first := (visits 0).env.reading
    let second := (visits 1).env.reading
    let isLocked := fun i => (visits (i + 2)).isLocked
    (admitting op).Comes visits fun n phase =>
      (phase = .entering op ∧ n = op.paths.length + 3 ∧ m.Suffices op first second ∧
        AllFree op.paths isLocked) ∨
      ∃ why : Rejection, phase = .warning op why ∧ why.Applies m op first second isLocked n := by
  intro first second isLocked
  refine .later rfl ?_
  rcases Rejection.atPressure?_cases m op first second isLocked with
    ⟨why, hwhy, happlies⟩ | ⟨hnone, hcritical, hurgent⟩
  · refine .now (.inr ⟨why, ?_, happlies⟩)
    simp only [after, Coordinator.advance, hmonitor]
    rw [hwhy]
  have hweighing : (admitting op).after visits 1 = .weighing op := by
    simp only [after, Coordinator.advance, hmonitor]
    rw [hnone]
  rw [hweighing]
  refine .later rfl ?_
  rcases Rejection.atHeadroom?_cases hcritical hurgent second isLocked with
    ⟨why, hwhy, happlies⟩ | ⟨hnone, hsuffices⟩
  · refine .now (.inr ⟨why, ?_, happlies⟩)
    simp only [after, Coordinator.advance, hmonitor]
    rw [hwhy]
  have hprobing : (weighing op).after (fun k => visits (k + 1)) 1 = .probing op op.paths := by
    simp only [after, Coordinator.advance, hmonitor]
    rw [hnone]
  rw [hprobing]
  obtain ⟨n, hbefore, hlast⟩ := comes_probing op op.paths fun k => visits (k + 2)
  refine ⟨n, hbefore, ?_⟩
  rcases hlast with ⟨hentering, rfl, hfree⟩ | ⟨i, p, hwarning, rfl, hi, hat, hfirst⟩
  · exact .inl ⟨hentering, rfl, hsuffices, hfree⟩
  · exact .inr ⟨.inUse p, hwarning, hsuffices, i, rfl, hi, hat, hfirst⟩

end Phase

/-! ## Admissions -/

/-- Nobody but the worker, in these phases, acts before the visit of a number. -/
def Undisturbed (visits : Nat → Visit ω) (phase : Nat → Phase ω) (n : Nat) : Prop :=
  ∀ k < n, (visits (k + 1)).found = (visits k).left (phase k)

section Verdicts

variable (m : MemoryMonitor) (op : Submitted ω) (visits : Nat → Visit ω) (phase : Nat → Phase ω)
  (n : Nat)

/-- How a worker that goes through these phases rejects an operation for a reason, after `n`
looks. -/
structure Rejected (why : Rejection) : Prop where
  applies : why.Applies m op (visits 0).env.reading (visits 1).env.reading
    (fun i => (visits (i + 2)).isLocked) n
  /-- Reasons in memory go before any path. -/
  isMemory_iff :
    why.isMemory = true ↔ ¬m.Suffices op (visits 0).env.reading (visits 1).env.reading
  /-- The audit log goes on with one warning, and nothing else changes. -/
  warned : ∃ audit, why.Warned (visits n).env.reading op (visits n).found.audit audit ∧
    (visits n).left (phase n) = { (visits n).found with audit }
  brokenOff : (visits n).env.sinkFails = true → phase (n + 1) = .finishing
  /-- Unless the sink has broken down, one counter goes up by one, nothing else changes, and the
  same operation goes back. -/
  counted : (visits n).env.sinkFails = false → phase (n + 1) = .rejecting op why ∧
    (∃ metrics, why.Counted (visits (n + 1)).found.metrics metrics ∧
      (visits (n + 1)).left (phase (n + 1)) = { (visits (n + 1)).found with metrics }) ∧
    phase (n + 2) = .requeueing op
  /-- If nobody else acts, the one warning and the one count are all that has happened since the
  beginning, but for the handles. -/
  undisturbed : Undisturbed visits phase (n + 2) → (visits n).env.sinkFails = false →
    ∃ h audit metrics, why.Warned (visits n).env.reading op (visits 0).found.audit audit ∧
      why.Counted (visits 0).found.metrics metrics ∧
      (visits (n + 2)).found = { (visits 0).found.withHandles h with audit, metrics }

/-- How a worker that goes through these phases decides about an operation, after `n` looks. -/
structure Considered : Prop where
  /-- The worker has only looked so far. -/
  looked : ∀ k < n, (phase k).isLooking ∧ (visits k).Rests (phase k)
  decided : phase n = .entering op ∨ ∃ why, phase n = .warning op why
  admitted_iff : phase n = .entering op ↔
    m.Suffices op (visits 0).env.reading (visits 1).env.reading ∧
      AllFree op.paths fun i => (visits (i + 2)).isLocked
  /-- Even if memory fell between the readings, the latter is above the critical threshold. -/
  above : phase n = .entering op → m.critical < (visits 1).env.reading
  rejected : ∀ why, phase n = .warning op why → Rejected m op visits phase n why
  /-- If nobody else acts, what is locked at the beginning decides. -/
  undisturbed_iff : Undisturbed visits phase n →
    (phase n = .entering op ↔
      m.Suffices op (visits 0).env.reading (visits 1).env.reading ∧
        ∀ p ∈ op.paths, (visits 0).isLocked p = false)
  /-- If nobody else acts, an admission changes nothing, but for the handles. -/
  undisturbed_admitted : Undisturbed visits phase n → phase n = .entering op →
    ∃ h, (visits n).found = (visits 0).found.withHandles h

end Verdicts

section Undisturbed

variable {visits : Nat → Visit ω} {phase : Nat → Phase ω} {n j : Nat}

/-- While the worker looks and nobody else acts, the coordinator is what it was. -/
theorem Undisturbed.found (halone : Undisturbed visits phase n) (hj : j ≤ n)
    (hrests : ∀ k < j, (visits k).Rests (phase k)) :
    ∃ h, (visits 0).found.files.nextHandle ≤ h ∧
      (visits j).found = (visits 0).found.withHandles h := by
  induction j with
  | zero => exact ⟨_, Nat.le_refl _, rfl⟩
  | succ j ih =>
    obtain ⟨h, hle, hfound⟩ := ih (Nat.le_of_succ_le hj) fun k hk => hrests k (Nat.lt_succ_of_lt hk)
    obtain ⟨h', hle', hleft⟩ := hrests j (Nat.lt_succ_self j)
    rw [hfound] at hle' hleft
    refine ⟨h', Nat.le_trans hle hle', ?_⟩
    rw [halone j hj, hleft]
    rfl

theorem Undisturbed.isLocked (halone : Undisturbed visits phase n)
    (hw : (visits 0).found.files.WellFormed) (hj : j ≤ n)
    (hrests : ∀ k < j, (visits k).Rests (phase k)) (p : String) :
    (visits j).isLocked p = (visits 0).isLocked p := by
  obtain ⟨h, hle, hfound⟩ := halone.found hj hrests
  rw [Visit.isLocked, hfound]
  exact LockKeeper.isLocked_withHandles hw hle _ p

end Undisturbed

section Admissions

variable {m : MemoryMonitor} {op : Submitted ω} {visits : Nat → Visit ω} {phase : Phase ω}
  {n : Nat}

theorem Phase.after_warning {why : Rejection} (h : phase.after visits n = .warning op why) :
    phase.after visits (n + 1) =
      if (visits n).env.sinkFails then .finishing else .rejecting op why := by
  rw [after, h]
  rfl

theorem Phase.after_rejecting {why : Rejection}
    (h : phase.after visits n = .rejecting op why) :
    phase.after visits (n + 1) = .requeueing op := by
  rw [after, h]
  rfl

section Decisions

variable (hw : (visits 0).found.files.WellFormed)
  (hlooked : ∀ k < n, (phase.after visits k).isLooking ∧ (visits k).Rests (phase.after visits k))

include hlooked

theorem rejected_of_warning {why : Rejection} (hwarning : phase.after visits n = .warning op why)
    (happlies : why.Applies m op (visits 0).env.reading (visits 1).env.reading
      (fun i => (visits (i + 2)).isLocked) n) :
    Rejected m op visits (phase.after visits) n why := by
  have hnext := Phase.after_warning hwarning
  have hwarned : (visits n).left (phase.after visits n) =
      (visits n).found.tell op (why.report (visits n).env.reading) := by
    rw [hwarning]
    rfl
  have hrejecting (hsink : (visits n).env.sinkFails = false) :
      phase.after visits (n + 1) = .rejecting op why := by
    rw [hnext, hsink, if_neg Bool.false_ne_true]
  have hcounted (hsink : (visits n).env.sinkFails = false) :
      (visits (n + 1)).left (phase.after visits (n + 1)) =
        (visits (n + 1)).found.count (·.reject why) := by
    rw [hrejecting hsink]
    rfl
  constructor
  case applies => exact happlies
  case isMemory_iff => exact happlies.isMemory_iff
  case warned => exact ⟨_, why.warned_tell _ op _, hwarned⟩
  case brokenOff =>
    intro hsink
    rw [hnext, if_pos hsink]
  case counted =>
    intro hsink
    exact ⟨hrejecting hsink, ⟨_, why.counted_reject _, hcounted hsink⟩,
      Phase.after_rejecting (hrejecting hsink)⟩
  case undisturbed =>
    intro halone hsink
    obtain ⟨h, -, hfound⟩ := halone.found (Nat.le_add_right n 2) fun k hk => (hlooked k hk).2
    have hlast : (visits (n + 2)).found =
        (((visits 0).found.withHandles h).tell op
          (why.report (visits n).env.reading)).count (·.reject why) := by
      rw [halone (n + 1) (Nat.lt_succ_self _), hcounted hsink, halone n (by omega), hwarned, hfound]
    exact ⟨h, _, _, why.warned_tell _ op (visits 0).found, why.counted_reject _, hlast⟩

include hw

theorem considered_of_entering (hentering : phase.after visits n = .entering op)
    (hlooks : n = op.paths.length + 3)
    (hsuffices : m.Suffices op (visits 0).env.reading (visits 1).env.reading)
    (hfree : AllFree op.paths fun i => (visits (i + 2)).isLocked) :
    Considered m op visits (phase.after visits) n := by
  have hnot (why : Rejection) : phase.after visits n ≠ .warning op why := by
    rw [hentering]
    nofun
  constructor
  case looked => exact hlooked
  case decided => exact .inl hentering
  case admitted_iff => exact iff_of_true hentering ⟨hsuffices, hfree⟩
  case above =>
    intro _
    have := hsuffices.headroom
    rw [UInt64.lt_iff_toNat_lt]
    omega
  case rejected => exact fun why hwarning => absurd hwarning (hnot why)
  case undisturbed_iff =>
    refine fun halone => iff_of_true hentering ⟨hsuffices, fun p hp => ?_⟩
    obtain ⟨i, hi⟩ := List.getElem?_of_mem hp
    have hle : i + 2 ≤ n := by
      have hlt := (List.getElem?_eq_some_iff.1 hi).1
      omega
    rw [← halone.isLocked hw hle fun k hk => (hlooked k (Nat.lt_of_lt_of_le hk hle)).2]
    exact hfree i p hi
  case undisturbed_admitted =>
    intro halone _
    obtain ⟨h, -, hfound⟩ := halone.found (Nat.le_refl n) fun k hk => (hlooked k hk).2
    exact ⟨h, hfound⟩

theorem considered_of_warning {why : Rejection} (hwarning : phase.after visits n = .warning op why)
    (happlies : why.Applies m op (visits 0).env.reading (visits 1).env.reading
      (fun i => (visits (i + 2)).isLocked) n) :
    Considered m op visits (phase.after visits) n := by
  have hnot : phase.after visits n ≠ .entering op := by
    rw [hwarning]
    nofun
  constructor
  case looked => exact hlooked
  case decided => exact .inr ⟨why, hwarning⟩
  case admitted_iff =>
    refine iff_of_false hnot ?_
    rintro ⟨hsuffices, hfree⟩
    obtain ⟨i, p, -, hi, hlocked⟩ := happlies.exists_isLocked hsuffices
    exact Bool.false_ne_true ((hfree i p hi).symm.trans hlocked)
  case above => exact fun hentering => absurd hentering hnot
  case rejected =>
    intro why' hwhy
    obtain rfl : why = why' := (Phase.warning.inj (hwarning.symm.trans hwhy)).2
    exact rejected_of_warning hlooked hwarning happlies
  case undisturbed_iff =>
    refine fun halone => iff_of_false hnot ?_
    rintro ⟨hsuffices, hfree⟩
    obtain ⟨i, p, hlooks, hi, hlocked⟩ := happlies.exists_isLocked hsuffices
    have hle : i + 2 ≤ n := by omega
    rw [halone.isLocked hw hle fun k hk => (hlooked k (Nat.lt_of_lt_of_le hk hle)).2,
      hfree p (List.mem_of_getElem? hi)] at hlocked
    exact Bool.false_ne_true hlocked
  case undisturbed_admitted => exact fun _ hentering => absurd hentering hnot

end Decisions

theorem Rejected.audit_eq {phase : Nat → Phase ω} {why : Rejection} {text : String}
    {details : Option Json} (h : Rejected m op visits phase n why)
    (hreport : why.report (visits n).env.reading = .warning text details) :
    ((visits n).left (phase n)).audit =
      (visits n).found.audit ++ [⟨op.work, op.id.text, .warning text details⟩] := by
  obtain ⟨audit, ⟨text', details', hreport', rfl⟩, hleft⟩ := h.warned
  obtain ⟨rfl, rfl⟩ := Report.warning.inj (hreport.symm.trans hreport')
  rw [hleft]

theorem Rejected.metrics_eq {phase : Nat → Phase ω} {why : Rejection}
    (h : Rejected m op visits phase n why) (hsink : (visits n).env.sinkFails = false) :
    let before := (visits (n + 1)).found.metrics
    ((visits (n + 1)).left (phase (n + 1))).metrics =
      { before with
        memoryThrottles := before.memoryThrottles + if why.isMemory then 1 else 0
        resourceConflicts := before.resourceConflicts + if why.isMemory then 0 else 1 } := by
  obtain ⟨-, ⟨metrics, hcounted, hleft⟩, -⟩ := h.counted hsink
  rw [hleft]
  exact hcounted.eq

/-- Whatever others do meanwhile, a worker decides so about every operation. -/
theorem exists_considered (op : Submitted ω) (hmonitor : ∀ k, (visits k).found.monitor = m)
    (hfiles : ∀ k, (visits k).found.files.WellFormed) :
    ∃ n, Considered m op visits ((Phase.admitting op).after visits) n := by
  obtain ⟨n, hlooking, hdecision⟩ := Phase.comes_admitting op hmonitor
  have hlooked (k : Nat) (hk : k < n) :=
    And.intro (hlooking k hk) ((visits k).rests_of_isLooking (hfiles k) (hlooking k hk))
  refine ⟨n, ?_⟩
  rcases hdecision with ⟨hentering, hlooks, hsuffices, hfree⟩ | ⟨why, hwarning, happlies⟩
  · exact considered_of_entering (hfiles 0) hlooked hentering hlooks hsuffices hfree
  · exact considered_of_warning (hfiles 0) hlooked hwarning happlies

end Admissions

/-- The coordinator is always found the same, and memory falls from 300 megabytes to 260 after the
first look. -/
def falling (c : Coordinator ω) (k : Nat) : Visit ω where
  found := c
  env := { reading := if k = 0 then 314572800 else 272629760 }

/-- Under a warning an urgent operation is admitted, though memory falls. Another one is not, and a
third not because of its path: each with one warning and one count. -/
theorem exists_considered_falling :
    let m := MemoryMonitor.ofMb 512 256
    let c : Coordinator Unit :=
      { config := {}, monitor := m, queue := { capacity := 50 },
        keeper := { directory := [], held := [("/data/b", ⟨0, 0⟩)] }, files := {}, workers := [] }
    let op (priority : Priority) (path : String) : Submitted Unit :=
      { id := ⟨"sync", by decide, by decide⟩, priority, requirement := { memoryMb := 2 },
        paths := [path], created := default, work := ⟨0, ()⟩ }
    let comesTo (op : Submitted Unit) (n : Nat) := (Phase.admitting op).after (falling c) n
    (∀ k, (falling c k).found.monitor = m) ∧
      (∀ k, (falling c k).found.files.WellFormed) ∧
      (∃ n, Considered m (op .high "/data/a") (falling c) (comesTo (op .high "/data/a")) n ∧
        comesTo (op .high "/data/a") n = .entering (op .high "/data/a")) ∧
      (∃ n, Considered m (op .normal "/data/a") (falling c) (comesTo (op .normal "/data/a")) n ∧
        ((falling c n).left (comesTo (op .normal "/data/a") n)).audit =
          [⟨⟨0, ()⟩, "sync", .warning "Memory pressure, skipping NORMAL priority" none⟩] ∧
        ((falling c (n + 1)).left (comesTo (op .normal "/data/a") (n + 1))).metrics =
          { memoryThrottles := 1 }) ∧
      (∃ n, Considered m (op .high "/data/b") (falling c) (comesTo (op .high "/data/b")) n ∧
        ((falling c n).left (comesTo (op .high "/data/b") n)).audit =
          [⟨⟨0, ()⟩, "sync", .warning "Resource already in use: /data/b" none⟩] ∧
        ((falling c (n + 1)).left (comesTo (op .high "/data/b") (n + 1))).metrics =
          { resourceConflicts := 1 }) := by
  intro m c op comesTo
  have hmonitor (k : Nat) : (falling c k).found.monitor = m := rfl
  have hfiles (k : Nat) : (falling c k).found.files.WellFormed := Files.wellFormed_empty
  have hsuffices (path : String) : m.Suffices (op .high path) 314572800 272629760 := by
    refine ⟨by decide, .inr (Nat.le_refl _), ?_⟩
    show (m.critical.toNat : ℤ) < (272629760 : UInt64).toNat - (2 : UInt64).toNat * 2 ^ 20
    decide
  refine ⟨hmonitor, hfiles, ?_, ?_, ?_⟩
  · obtain ⟨n, h⟩ := exists_considered (op .high "/data/a") hmonitor hfiles
    have hfree : c.keeper.isLocked c.files "/data/a" = false := by decide +kernel
    refine ⟨n, h, h.admitted_iff.2 ⟨hsuffices _, fun i p hi => ?_⟩⟩
    rw [List.mem_singleton.1 (List.mem_of_getElem? hi)]
    exact hfree
  · obtain ⟨n, h⟩ := exists_considered (op .normal "/data/a") hmonitor hfiles
    have hlow : ¬m.Suffices (op .normal "/data/a") 314572800 272629760 := fun hs =>
      absurd hs.urgent (by decide)
    obtain ⟨why, hwhy⟩ := h.decided.resolve_left fun he => hlow (h.admitted_iff.1 he).1
    have hrejected := h.rejected why hwhy
    obtain rfl : why = .pressure .normal := by
      have happlies := hrejected.applies
      cases why with
      | criticalPressure => exact absurd happlies.2 (by decide)
      | pressure priority => rw [happlies.2.1]
      | noHeadroom mb => exact absurd happlies.2.2.2.1 (by decide)
      | inUse path => exact absurd happlies.1 hlow
    exact ⟨n, h, hrejected.audit_eq rfl, hrejected.metrics_eq rfl⟩
  · obtain ⟨n, h⟩ := exists_considered (op .high "/data/b") hmonitor hfiles
    have hheld : c.keeper.isLocked c.files "/data/b" = true := by decide +kernel
    obtain ⟨why, hwhy⟩ := h.decided.resolve_left fun he =>
      Bool.false_ne_true (((h.admitted_iff.1 he).2 0 _ rfl).symm.trans hheld)
    have hrejected := h.rejected why hwhy
    obtain ⟨path, rfl⟩ : ∃ path, why = .inUse path := by
      cases hmemory : why.isMemory with
      | true => exact absurd (hsuffices _) (hrejected.isMemory_iff.1 hmemory)
      | false =>
        cases why with
        | inUse path => exact ⟨path, rfl⟩
        | _ => cases hmemory
    obtain ⟨-, i, -, hi, -⟩ := hrejected.applies
    obtain rfl := List.mem_singleton.1 (List.mem_of_getElem? hi)
    exact ⟨n, h, hrejected.audit_eq rfl, hrejected.metrics_eq rfl⟩

end Upkeep

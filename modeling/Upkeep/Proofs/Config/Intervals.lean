import Upkeep.Config.Basic

/-!
# Intervals that are set together

`CoordinatorConfig.withIntervals` sets five intervals at once, in milliseconds modulo `2 ^ 64`, and
the bound of one day is put to the remainder only (`invalid?_withIntervals`).

**What is kept.** A duration of fewer than `2 ^ 64` milliseconds is either kept, rounded down to
whole milliseconds, or refused. A longer one is refused only if its remainder is, and it is never
kept (`keptOrRefused_iff`). So the durations that are neither are those beyond `2 ^ 64`
milliseconds with a remainder of at most one day (`exists_not_keptOrRefused`).
-/

namespace Upkeep

/-- The duration rounded down to whole milliseconds. -/
def Duration.wholeMillis (d : Duration) : Duration :=
  ⟨d.millis * nanosPerMilli, Nat.lt_of_le_of_lt (Nat.div_mul_le_self _ _) d.nanos_lt⟩

namespace Duration

theorem toNat_millisWord (d : Duration) : d.millisWord.toNat = d.millis % UInt64.size :=
  UInt64.toNat_ofNat'

theorem ofMillis_millisWord_iff (d : Duration) :
    ofMillis d.millisWord = d.wholeMillis ↔ d.millis < UInt64.size := by
  have hnanos : ofMillis d.millisWord = d.wholeMillis ↔
      d.millis % UInt64.size * nanosPerMilli = d.millis * nanosPerMilli := by
    rw [← toNat_millisWord, ofMillis, wholeMillis, mk.injEq]
  rw [hnanos, Nat.mul_left_inj (by decide), Nat.mod_eq_iff_lt (by decide)]

end Duration

namespace CoordinatorConfig

variable {c c' : CoordinatorConfig} {d : Duration}

/-- The intervals that are set together. -/
def setTogether (c : CoordinatorConfig) : List Duration :=
  [c.dequeueWait, c.idleSleep, c.admissionBackoff, c.lockBackoff, c.idlePoll]

/-- All settings are the same but for the intervals that are set together. -/
structure SameOtherwise (c c' : CoordinatorConfig) : Prop where
  maxConcurrent : c'.maxConcurrent = c.maxConcurrent
  queueCapacity : c'.queueCapacity = c.queueCapacity
  memoryWarningMb : c'.memoryWarningMb = c.memoryWarningMb
  memoryCriticalMb : c'.memoryCriticalMb = c.memoryCriticalMb
  lockDir : c'.lockDir = c.lockDir
  shutdownJoinMs : c'.shutdownJoinMs = c.shutdownJoinMs

/-- The intervals are the duration in whole milliseconds and nothing else has changed, or the
settings are refused. -/
def KeptOrRefused (c : CoordinatorConfig) (d : Duration) : Prop :=
  (c.withIntervals d).invalid? ≠ none ∨
    (∀ e ∈ (c.withIntervals d).setTogether, e = d.wholeMillis) ∧
      SameOtherwise c (c.withIntervals d)

theorem sameOtherwise_withIntervals (c : CoordinatorConfig) (d : Duration) :
    SameOtherwise c (c.withIntervals d) := ⟨rfl, rfl, rfl, rfl, rfl, rfl⟩

theorem setTogether_withIntervals (c : CoordinatorConfig) (d : Duration) :
    (c.withIntervals d).setTogether = List.replicate 5 (.ofMillis d.millisWord) := rfl

/-- The rules on settings other than intervals. -/
structure IsSound (c : CoordinatorConfig) : Prop where
  workers : c.maxConcurrent ≠ 0
  capacity : c.queueCapacity ≠ 0
  thresholds : ¬c.memoryWarningMb ≤ c.memoryCriticalMb
  lockDir : ¬c.lockDir.isEmpty

theorem IsSound.invalid?_eq (h : c.IsSound) : c.invalid? =
    (c.intervals.find? fun i => maxIntervalMs < i.2).map fun i => .intervalTooLong i.1 i.2 := by
  rw [invalid?, if_neg h.workers, if_neg h.capacity, if_neg h.thresholds, if_neg h.lockDir]

theorem invalid?_eq_none_iff :
    c.invalid? = none ↔ c.IsSound ∧ ∀ i ∈ c.intervals, i.2 ≤ maxIntervalMs := by
  have hsound (hvalid : c.invalid? = none) : c.IsSound := by
    unfold invalid? at hvalid
    split at hvalid
    · cases hvalid
    · split at hvalid
      · cases hvalid
      · split at hvalid
        · cases hvalid
        · split at hvalid
          · cases hvalid
          · constructor <;> assumption
  have hintervals (h : c.IsSound) :
      c.invalid? = none ↔ ∀ i ∈ c.intervals, i.2 ≤ maxIntervalMs := by
    rw [h.invalid?_eq, Option.map_eq_none_iff, List.find?_eq_none]
    simp only [decide_eq_true_eq, UInt64.not_lt]
  exact ⟨fun hvalid => ⟨hsound hvalid, (hintervals (hsound hvalid)).1 hvalid⟩,
    fun h => (hintervals h.1).2 h.2⟩

/-- Of valid settings only the remainder can become invalid, and the first interval is told. -/
theorem invalid?_withIntervals (hvalid : c.invalid? = none) (d : Duration) :
    (c.withIntervals d).invalid? =
      if maxIntervalMs < d.millisWord then some (.intervalTooLong "dequeue_wait_ms" d.millisWord)
      else none := by
  obtain ⟨hsound, hintervals⟩ := invalid?_eq_none_iff.1 hvalid
  have hsound' : (c.withIntervals d).IsSound :=
    ⟨hsound.workers, hsound.capacity, hsound.thresholds, hsound.lockDir⟩
  have hjoin : ¬maxIntervalMs < c.shutdownJoinMs :=
    UInt64.not_lt.2 (hintervals ("shutdown_join_ms", c.shutdownJoinMs) (by simp [intervals]))
  rw [hsound'.invalid?_eq]
  by_cases hlong : maxIntervalMs < d.millisWord
  · rw [if_pos hlong]
    simp [intervals, withIntervals, hlong]
  · rw [if_neg hlong]
    simp [intervals, withIntervals, hlong, hjoin]

theorem invalid?_withIntervals_iff (hvalid : c.invalid? = none) (d : Duration) :
    (c.withIntervals d).invalid? ≠ none ↔ maxIntervalMs.toNat < d.millis % UInt64.size := by
  rw [invalid?_withIntervals hvalid, ← Duration.toNat_millisWord, ← UInt64.lt_iff_toNat_lt]
  split <;> simp_all

/-- **Valid settings with other intervals.** All else stays. The intervals are the remainder of the
duration, and the settings are refused exactly if that is more than one day. So the duration is kept
or refused exactly if nothing is cut off or the remainder is too long. -/
theorem keptOrRefused_iff (hvalid : c.invalid? = none) (d : Duration) :
    SameOtherwise c (c.withIntervals d) ∧
      (∀ e ∈ (c.withIntervals d).setTogether, e = .ofMillis d.millisWord) ∧
      ((c.withIntervals d).invalid? ≠ none ↔ maxIntervalMs.toNat < d.millis % UInt64.size) ∧
      (KeptOrRefused c d ↔
        d.millis < UInt64.size ∨ maxIntervalMs.toNat < d.millis % UInt64.size) := by
  have hset : ∀ e ∈ (c.withIntervals d).setTogether, e = .ofMillis d.millisWord :=
    fun e he => List.eq_of_mem_replicate (setTogether_withIntervals c d ▸ he)
  have hkept : (∀ e ∈ (c.withIntervals d).setTogether, e = d.wholeMillis) ↔
      d.millis < UInt64.size := by
    rw [setTogether_withIntervals, List.forall_mem_replicate, ← Duration.ofMillis_millisWord_iff]
    exact or_iff_right (by decide)
  refine ⟨sameOtherwise_withIntervals c d, hset, invalid?_withIntervals_iff hvalid d, ?_⟩
  rw [KeptOrRefused, hkept, invalid?_withIntervals_iff hvalid,
    and_iff_left (sameOtherwise_withIntervals c d), or_comm]

/-- 1.5 milliseconds are kept as one, and one day and a millisecond is refused. -/
theorem keptOrRefused_default :
    let c : CoordinatorConfig := {}
    c.invalid? = none ∧
      (∀ e ∈ (c.withIntervals (.ofNanos 1500000)).setTogether, e = .ofMillis 1) ∧
      (c.withIntervals (.ofMillis 86400001)).invalid? ≠ none := by
  intro c
  have hvalid : c.invalid? = none := by decide
  exact ⟨hvalid, (keptOrRefused_iff hvalid (.ofNanos 1500000)).2.1,
    (keptOrRefused_iff hvalid (.ofMillis 86400001)).2.2.1.2 (by decide)⟩

/-- A duration that is not kept and not refused. It is 384 milliseconds more than `2 ^ 64`, and the
384 are accepted as the intervals. -/
theorem exists_not_keptOrRefused : ∃ (c : CoordinatorConfig) (d : Duration), c.invalid? = none ∧
    maxIntervalMs.toNat < d.millis ∧ (c.withIntervals d).invalid? = none ∧
      ¬KeptOrRefused c d := by
  have hvalid : invalid? {} = none := by decide
  refine ⟨{}, .ofSecs 18446744073709552, hvalid, by decide, by decide, fun hkept => ?_⟩
  rcases hkept with hrefused | ⟨hset, -⟩
  · exact hrefused (by decide)
  · exact absurd (hset _ List.mem_cons_self) (by decide)

end CoordinatorConfig

end Upkeep

import Mathlib.Data.Nat.Cast.Order.Ring
import Upkeep.Memory.Monitor

/-!
# Decisions on memory in unbounded numbers

Amounts are given in megabytes and multiplied out in words of 64 bits; what does not fit there is
cut down to the largest word (`toNat_ofMb`). Here the decisions are compared with those that exact
numbers of bytes give.

**Headroom.** A requirement that was cut down leaves nothing of any reading (`allows_iff_lt`), and
above a threshold that was cut down there is no room. So cutting down changes no answer
(`allows_iff`).

**Pressure.** A reading below the largest word is below a threshold exactly if it is below what is
left of it (`lt_ofMb_iff`). The largest word itself is below no threshold, not even below one that
was cut down to it. So the pressure is exact at all readings but this one (`pressure_ofMb`), and
there it is not (`exists_pressure_ne_exact`).
-/

namespace Upkeep

namespace Memory

/-- The greatest number of bytes that a word can hold. -/
def mostBytes : Nat := UInt64.size - 1

theorem toNat_saturatingMul (a b : UInt64) :
    (saturatingMul a b).toNat = min (a.toNat * b.toNat) mostBytes := by
  have hlt : min (a.toNat * b.toNat) mostBytes < UInt64.size :=
    Nat.lt_of_le_of_lt (Nat.min_le_right _ _) (by decide)
  exact UInt64.toNat_ofNat_of_lt' hlt

theorem toNat_ofMb (mb : UInt64) : (ofMb mb).toNat = min (mb.toNat * 2 ^ 20) mostBytes := by
  rw [ofMb, toNat_saturatingMul, Nat.mul_comm]
  rfl

theorem toNat_le_mostBytes (a : UInt64) : a.toNat ≤ mostBytes := Nat.le_pred_of_lt a.toNat_lt_size

/-- A reading that is not the largest word is below an amount that was cut down exactly if it is
below the whole. -/
theorem lt_ofMb_iff {reading : UInt64} (h : reading.toNat ≠ mostBytes) (mb : UInt64) :
    reading < ofMb mb ↔ reading.toNat < mb.toNat * 2 ^ 20 := by
  have hle := toNat_le_mostBytes reading
  rw [UInt64.lt_iff_toNat_lt, toNat_ofMb, Nat.lt_min]
  exact and_iff_left (Nat.lt_of_le_of_ne hle h)

theorem not_lt_ofMb {reading : UInt64} (h : reading.toNat = mostBytes) (mb : UInt64) :
    ¬reading < ofMb mb := by
  rw [UInt64.lt_iff_toNat_lt, toNat_ofMb, h, Nat.not_lt]
  exact Nat.min_le_right _ _

end Memory

open Memory

/-- The pressure at a number of bytes, measured against thresholds in megabytes. -/
def Pressure.exact (warningMb criticalMb reading : Nat) : Pressure :=
  if reading < criticalMb * 2 ^ 20 then .critical
  else if reading < warningMb * 2 ^ 20 then .warning
  else .normal

namespace MemoryMonitor

/-- The pressure is exact at every reading but the largest, which is below no threshold. -/
theorem pressure_ofMb (warningMb criticalMb reading : UInt64) :
    (ofMb warningMb criticalMb).pressure reading =
      if reading.toNat = mostBytes then .normal
      else .exact warningMb.toNat criticalMb.toNat reading.toNat := by
  rw [pressure, ofMb]
  by_cases h : reading.toNat = mostBytes
  · rw [if_pos h, if_neg (not_lt_ofMb h criticalMb), if_neg (not_lt_ofMb h warningMb)]
  · rw [if_neg h, Pressure.exact]
    simp only [lt_ofMb_iff h]

theorem allows_iff_lt (m : MemoryMonitor) (reading requiredMb : UInt64) :
    m.allows reading requiredMb ↔
      (m.critical.toNat : ℤ) < reading.toNat - requiredMb.toNat * 2 ^ 20 := by
  have hreading := toNat_le_mostBytes reading
  have hrequired := toNat_ofMb requiredMb
  rw [allows, Bool.and_eq_true, decide_eq_true_iff, decide_eq_true_iff]
  by_cases hle : Memory.ofMb requiredMb ≤ reading
  · have hrest := UInt64.toNat_sub_of_le reading (Memory.ofMb requiredMb) hle
    rw [UInt64.le_iff_toNat_le] at hle
    rw [UInt64.lt_iff_toNat_lt, UInt64.le_iff_toNat_le, hrest]
    omega
  · rw [UInt64.le_iff_toNat_le] at hle ⊢
    omega

theorem allows_iff (warningMb criticalMb reading requiredMb : UInt64) :
    (ofMb warningMb criticalMb).allows reading requiredMb ↔
      (criticalMb.toNat * 2 ^ 20 : ℤ) < reading.toNat - requiredMb.toNat * 2 ^ 20 := by
  have hreading := toNat_le_mostBytes reading
  have hcritical : (ofMb warningMb criticalMb).critical.toNat =
      min (criticalMb.toNat * 2 ^ 20) mostBytes := toNat_ofMb criticalMb
  rw [allows_iff_lt]
  omega

theorem pressure_zero (warningMb : UInt64) {criticalMb : UInt64} (h : 0 < criticalMb) :
    (ofMb warningMb criticalMb).pressure 0 = .critical := by
  have hbelow : (0 : UInt64).toNat < criticalMb.toNat * 2 ^ 20 :=
    Nat.mul_pos (UInt64.lt_iff_toNat_lt.1 h) (by decide)
  rw [pressure_ofMb, if_neg (by decide), Pressure.exact, if_pos hbelow]

theorem allows_zero (m : MemoryMonitor) (requiredMb : UInt64) : m.allows 0 requiredMb = false := by
  have hzero : ((0 : UInt64).toNat : ℤ) = 0 := rfl
  rw [← Bool.not_eq_true, allows_iff_lt, hzero]
  omega

/-- In unbounded numbers, both decisions are exact, but for the pressure at the largest reading,
which is normal whatever the thresholds are. -/
theorem decisions_exact (warningMb criticalMb reading requiredMb : UInt64) :
    let m := ofMb warningMb criticalMb
    m.pressure reading =
        (if reading.toNat = mostBytes then .normal
        else .exact warningMb.toNat criticalMb.toNat reading.toNat) ∧
      (m.allows reading requiredMb ↔
        (criticalMb.toNat * 2 ^ 20 : ℤ) < reading.toNat - requiredMb.toNat * 2 ^ 20) :=
  ⟨pressure_ofMb warningMb criticalMb reading, allows_iff warningMb criticalMb reading requiredMb⟩

/-- The largest reading is not below a threshold of 2 ^ 64 bytes, though it is a byte less. -/
theorem exists_pressure_ne_exact : ¬∀ warningMb criticalMb reading : UInt64,
    (ofMb warningMb criticalMb).pressure reading =
      .exact warningMb.toNat criticalMb.toNat reading.toNat := by
  intro hexact
  have hmost := hexact 17592186044416 17592186044416 18446744073709551615
  exact absurd hmost (by decide)

end MemoryMonitor

end Upkeep

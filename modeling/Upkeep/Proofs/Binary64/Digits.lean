import Mathlib.Algebra.Order.Field.Power
import Mathlib.Algebra.Order.Field.Rat
import Mathlib.Tactic.Positivity
import Mathlib.Tactic.Ring
import Upkeep.Binary64.Shortest
import Upkeep.Proofs.Binary64.Rounding

/-!
# What the shortest digits stand for

The digits chosen for a number stand for a number of its interval, hence for no more than the middle
to the next number (`value_shortest_le`). Dropping the zeros at the end changes nothing
(`Digits.value_trim`).
-/

namespace Upkeep.Binary64

namespace Digits

variable {d : Digits}

/-- The number that digits stand for. -/
def value (d : Digits) : ℚ := d.digits * 10 ^ d.exponent

theorem ratio_snd_pos (d : Digits) : 0 < d.ratio.2 := by
  unfold ratio
  split
  · exact Nat.one_pos
  · exact Nat.pow_pos (by decide)

theorem value_mul_ratio (d : Digits) : d.value * d.ratio.2 = d.ratio.1 := by
  unfold value ratio
  split
  · rename_i hnonneg
    have hpow : (10 : ℚ) ^ d.exponent = 10 ^ d.exponent.toNat := by
      rw [← zpow_natCast, Int.toNat_of_nonneg hnonneg]
    simp [hpow]
  · rename_i hneg
    have hpow : (10 : ℚ) ^ (-d.exponent).toNat = 10 ^ (-d.exponent) := by
      rw [← zpow_natCast, Int.toNat_of_nonneg (by omega)]
    have hone : (10 : ℚ) ^ d.exponent * 10 ^ (-d.exponent) = 1 := by
      rw [← zpow_add₀ (by decide), add_neg_cancel, zpow_zero]
    rw [Nat.pow_eq, Nat.cast_pow, Nat.cast_ofNat, hpow, mul_assoc, hone, mul_one]

theorem value_le_of_ratio {a b : Nat} (h : a * d.ratio.1 ≤ b * d.ratio.2) : a * d.value ≤ b := by
  have hpos : (0 : ℚ) < d.ratio.2 := by exact_mod_cast d.ratio_snd_pos
  refine le_of_mul_le_mul_right ?_ hpos
  rw [mul_assoc, value_mul_ratio]
  exact_mod_cast h

theorem value_go (d : Digits) (n : Nat) : (trim.go d n).value = d.value := by
  induction n generalizing d with
  | zero => rfl
  | succ n ih =>
    rw [trim.go]
    split
    · rename_i hzero
      have hdigits : (d.digits : ℚ) = (d.digits / 10 : Nat) * 10 := by
        exact_mod_cast (Nat.div_mul_cancel (Nat.dvd_of_mod_eq_zero hzero)).symm
      rw [ih, value, value, hdigits, zpow_add_one₀ (by decide)]
      ring
    · rfl

theorem digits_go_ne_zero (h : d.digits ≠ 0) (n : Nat) : (trim.go d n).digits ≠ 0 := by
  induction n generalizing d with
  | zero => exact h
  | succ n ih =>
    rw [trim.go]
    split
    · exact ih (show d.digits / 10 ≠ 0 by omega)
    · exact h

theorem value_trim (d : Digits) : d.trim.value = d.value := value_go d _

theorem digits_trim_ne_zero (h : d.digits ≠ 0) : d.trim.digits ≠ 0 := digits_go_ne_zero h _

end Digits

/-! ## The digits that are chosen -/

theorem Interval.le_high_of_contains {i : Interval} {d : Digits} (h : i.contains d = true) :
    4 * unitsPerOne * d.ratio.1 ≤ i.high * d.ratio.2 := by
  simp only [contains] at h
  split at h <;> simp only [Bool.and_eq_true, decide_eq_true_eq] at h
  · exact h.2
  · exact h.2.le

/-- What is picked is in the interval and not zero. -/
theorem Interval.contains_of_pick {i : Interval} {num den : Nat} {e : Int} {d : Digits}
    (h : i.pick num den e = some d) : i.contains d = true ∧ d.digits ≠ 0 := by
  obtain ⟨a, b, side, hneighbours⟩ : ∃ a b side, neighbours num den e = (a, b, side) :=
    ⟨_, _, _, rfl⟩
  have hb : b.digits ≠ 0 := by
    rw [neighbours] at hneighbours
    cases hneighbours
    exact Nat.succ_ne_zero _
  have hd : (i.contains a = true ∧ a.digits ≠ 0) ∧ d = a ∨ i.contains b = true ∧ d = b := by
    rw [pick, hneighbours] at h
    dsimp only at h
    split at h
    · rename_i hina hinb
      rw [Bool.and_eq_true, bne_iff_ne] at hina
      split at h
      · exact .inl ⟨hina, (Option.some.inj h).symm⟩
      · exact .inr ⟨hinb, (Option.some.inj h).symm⟩
      · split at h
        · exact .inl ⟨hina, (Option.some.inj h).symm⟩
        · exact .inr ⟨hinb, (Option.some.inj h).symm⟩
    · rename_i hina hinb
      rw [Bool.and_eq_true, bne_iff_ne] at hina
      exact .inl ⟨hina, (Option.some.inj h).symm⟩
    · rename_i hina hinb
      exact .inr ⟨hinb, (Option.some.inj h).symm⟩
    · cases h
  rcases hd with ⟨ha, rfl⟩ | ⟨hinb, rfl⟩
  · exact ha
  · exact ⟨hinb, hb⟩

variable {x : Binary64}

theorem units_ne_zero (h : x.isZero = false) : x.units ≠ 0 := by
  have hmagnitude : x.magnitude ≠ 0 := of_decide_eq_false h
  have hsignificand : x.significand ≠ 0 := by
    unfold significand
    split
    · exact hmagnitude
    · exact Nat.ne_of_gt (Nat.add_pos_right _ (by decide))
  exact Nat.mul_ne_zero hsignificand (Nat.two_pow_pos _).ne'

/-- The digits of a number other than zero are not zero, and stand for no more than the end of its
interval. -/
theorem shortest_spec (h : x.isZero = false) :
    x.shortest.digits ≠ 0 ∧ 4 * unitsPerOne * x.shortest.value ≤ x.interval.high := by
  suffices hpicked : ∃ d : Digits, x.shortest = d.trim ∧ d.digits ≠ 0 ∧
      4 * unitsPerOne * d.ratio.1 ≤ x.interval.high * d.ratio.2 by
    obtain ⟨d, hshortest, hdigits, hratio⟩ := hpicked
    rw [hshortest, Digits.value_trim]
    exact ⟨Digits.digits_trim_ne_zero hdigits, by exact_mod_cast Digits.value_le_of_ratio hratio⟩
  have hhigh : 4 * x.units ≤ x.interval.high := Nat.le_add_right _ _
  cases hpick : (List.range 17).findSome? fun (n : Nat) =>
      x.interval.pick x.units unitsPerOne (decimalExponent x.units unitsPerOne - n) with
  | some d =>
    obtain ⟨n, -, hd⟩ := List.exists_of_findSome?_eq_some hpick
    obtain ⟨hcontains, hdigits⟩ := Interval.contains_of_pick hd
    refine ⟨d, ?_, hdigits, Interval.le_high_of_contains hcontains⟩
    show Digits.trim (Option.getD _ _) = d.trim
    rw [hpick, Option.getD_some]
  | none =>
    refine ⟨⟨x.units, -1074⟩, ?_, units_ne_zero h, ?_⟩
    · show Digits.trim (Option.getD _ _) = _
      rw [hpick, Option.getD_none]
    · have hpower : unitsPerOne ≤ Nat.pow 10 (-(-1074 : Int)).toNat := by decide +kernel
      have hneg : ¬ (0 : Int) ≤ -1074 := by decide
      rw [Digits.ratio, if_neg hneg]
      dsimp only
      generalize unitsPerOne = u at hpower ⊢
      generalize Nat.pow 10 (-(-1074 : Int)).toNat = den at hpower ⊢
      rw [Nat.mul_right_comm]
      exact Nat.mul_le_mul hhigh hpower

/-- Only the largest finite number has digits beyond the last middle. -/
theorem value_shortest_le (h : x.isZero = false) (hlast : x.magnitude + 1 < infinityBits) :
    x.shortest.value ≤ lastMiddle := by
  have hhigh : x.interval.high ≤ 4 * unitsPerOne * lastMiddle := units_le_lastMiddle hlast
  have hvalue := (shortest_spec h).2
  have hunits : 0 < unitsPerOne := by decide +kernel
  generalize unitsPerOne = u at hhigh hvalue hunits
  generalize lastMiddle = m at hhigh ⊢
  have hpos : (0 : ℚ) < 4 * u := by positivity
  refine le_of_mul_le_mul_left (hvalue.trans ?_) hpos
  exact_mod_cast hhigh

end Upkeep.Binary64

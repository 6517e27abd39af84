import Mathlib.Algebra.Order.Field.Power
import Upkeep.Binary64

/-!
# Rounding is monotone

More units never round to a smaller number (`magnitude_ofUnits_mono`), and the patterns of the
magnitudes are in the order of what they stand for (`units_mono`). So a product is finite if a
product of greater numbers is (`isFinite_mul_mono`).

**Words times powers of ten.** A word scaled by a power of ten is rounded three times: the word, the
power and the product. The result is finite for all products up to the middle between the two
largest finite numbers (`isFinite_scaled`). Above that middle it may be infinite although the exact
product is nearest to the largest finite number.
-/

namespace Upkeep.Binary64

variable {x x' y y' : Binary64} {a b den : Nat}

/-! ## Quotients -/

theorem div_le_divEven (a den : Nat) : a / den ≤ divEven a den := by
  simp only [divEven]
  split
  · exact Nat.le_refl _
  · split <;> omega

theorem divEven_le_succ (a den : Nat) : divEven a den ≤ a / den + 1 := by
  simp only [divEven]
  split
  · omega
  · split <;> omega

theorem divEven_mono (h : a ≤ b) (den : Nat) : divEven a den ≤ divEven b den := by
  have hquotient : a / den ≤ b / den := Nat.div_le_div_right h
  rcases Nat.lt_or_eq_of_le hquotient with hlt | heq
  · calc divEven a den ≤ a / den + 1 := divEven_le_succ a den
      _ ≤ b / den := hlt
      _ ≤ divEven b den := div_le_divEven b den
  · have hrest : a % den ≤ b % den := by
      have ha := Nat.div_add_mod a den
      have hb := Nat.div_add_mod b den
      rw [heq] at ha
      omega
    simp only [divEven, heq]
    split
    · split
      · exact Nat.le_refl _
      · split <;> omega
    · split
      · rw [if_neg (by omega)]
        split <;> omega
      · rw [if_neg (by omega), if_neg (by omega)]

/-! ## Rounded numbers -/

theorem magnitude_ofMagnitude (neg : Bool) {m : Nat} (h : m ≤ infinityBits) :
    (ofMagnitude neg m).magnitude = m := by
  have hm : m < signBit := Nat.lt_of_le_of_lt h (by decide)
  cases neg with
  | false =>
    have hword : m < UInt64.size := Nat.lt_trans hm (by decide)
    simp [ofMagnitude, magnitude, Nat.mod_eq_of_lt hword, Nat.mod_eq_of_lt hm]
  | true =>
    have hword : signBit + m < UInt64.size :=
      Nat.lt_of_lt_of_eq (Nat.add_lt_add_left hm signBit) (by decide)
    simp [ofMagnitude, magnitude, Nat.mod_eq_of_lt hword, Nat.mod_eq_of_lt hm]

/-- By how many binary digits a number of units is too long. -/
def excess (n : Nat) : Nat := n.log2 - 52

theorem magnitude_ofUnits (neg : Bool) (num den : Nat) :
    (ofUnits neg num den).magnitude = min infinityBits
      (excess (num / den) * perExponent + divEven num (den * 2 ^ excess (num / den))) :=
  magnitude_ofMagnitude neg (Nat.min_le_left _ _)

theorem log2_mono (h : a ≤ b) : a.log2 ≤ b.log2 := by
  rcases Nat.eq_zero_or_pos a with rfl | hpos
  · exact Nat.zero_le _
  · exact (Nat.le_log2 (by omega)).2 ((Nat.log2_self_le (by omega)).trans h)

/-- What is too long is cut to 53 digits. -/
theorem div_excess_lt (n : Nat) : n / 2 ^ excess n < 2 ^ 53 := by
  rw [Nat.div_lt_iff_lt_mul (Nat.two_pow_pos _), ← Nat.pow_add]
  refine Nat.lt_of_lt_of_le Nat.lt_log2_self (Nat.pow_le_pow_right (by decide) ?_)
  unfold excess
  omega

theorem le_div_excess {n : Nat} (h : 0 < excess n) : 2 ^ 52 ≤ n / 2 ^ excess n := by
  have hlog : 52 + excess n = n.log2 := by
    unfold excess at *
    omega
  have hne : n ≠ 0 := by
    rintro rfl
    cases h
  rw [Nat.le_div_iff_mul_le (Nat.two_pow_pos _), ← Nat.pow_add, hlog]
  exact Nat.log2_self_le hne

/-- More units do not round to less. -/
theorem magnitude_ofUnits_mono (h : a ≤ b) (neg neg' : Bool) (den : Nat) :
    (ofUnits neg a den).magnitude ≤ (ofUnits neg' b den).magnitude := by
  rw [magnitude_ofUnits, magnitude_ofUnits]
  refine min_le_min_left _ ?_
  have hquotient : a / den ≤ b / den := Nat.div_le_div_right h
  have hexcess : excess (a / den) ≤ excess (b / den) :=
    Nat.sub_le_sub_right (log2_mono hquotient) 52
  rcases Nat.lt_or_eq_of_le hexcess with hlt | heq
  · -- One digit more, and already the least of that length is no less.
    have ha : divEven a (den * 2 ^ excess (a / den)) ≤ 2 ^ 53 := by
      refine (divEven_le_succ _ _).trans ?_
      rw [← Nat.div_div_eq_div_mul]
      exact div_excess_lt (a / den)
    have hb : 2 ^ 52 ≤ divEven b (den * 2 ^ excess (b / den)) := by
      refine Nat.le_trans ?_ (div_le_divEven _ _)
      rw [← Nat.div_div_eq_div_mul]
      exact le_div_excess (by omega)
    have hstep : excess (a / den) * perExponent + perExponent ≤ excess (b / den) * perExponent := by
      rw [← Nat.succ_mul]
      exact Nat.mul_le_mul_right _ hlt
    simp only [perExponent] at hstep ⊢
    omega
  · rw [heq]
    exact Nat.add_le_add_left (divEven_mono h _) _

/-! ## The order of the patterns -/

theorem significand_eq (x : Binary64) : x.significand = x.magnitude - x.scale * perExponent := by
  rw [significand]
  split <;> simp only [scale, perExponent] at * <;> omega

theorem scale_mono (h : x.magnitude ≤ y.magnitude) : x.scale ≤ y.scale :=
  Nat.sub_le_sub_right (Nat.div_le_div_right h) 1

theorem units_mono (h : x.magnitude ≤ y.magnitude) : x.units ≤ y.units := by
  unfold units
  rcases Nat.lt_or_eq_of_le (scale_mono h) with hlt | heq
  · have hx : x.significand ≤ 2 * perExponent := by
      simp only [significand_eq, scale, perExponent]
      omega
    have hy : perExponent ≤ y.significand := by
      have hpos : 0 < y.scale := Nat.zero_lt_of_lt hlt
      simp only [scale, perExponent] at hpos
      simp only [significand_eq, scale, perExponent]
      omega
    calc x.significand * 2 ^ x.scale ≤ 2 * perExponent * 2 ^ x.scale := Nat.mul_le_mul_right _ hx
      _ = perExponent * 2 ^ (x.scale + 1) := by rw [Nat.pow_succ]; ac_rfl
      _ ≤ perExponent * 2 ^ y.scale :=
        Nat.mul_le_mul_left _ (Nat.pow_le_pow_right (by decide) hlt)
      _ ≤ y.significand * 2 ^ y.scale := Nat.mul_le_mul_right _ hy
  · rw [significand_eq, significand_eq, heq]
    exact Nat.mul_le_mul_right _ (Nat.sub_le_sub_right h _)

/-! ## Products -/

/-- A product of smaller numbers is finite too. -/
theorem isFinite_mul_mono (hx : x.units ≤ x'.units) (hy : y.units ≤ y'.units)
    (h : (x'.mul y').isFinite = true) : (x.mul y).isFinite = true := by
  have hmagnitude : (x.mul y).magnitude ≤ (x'.mul y').magnitude :=
    magnitude_ofUnits_mono (Nat.mul_le_mul hx hy) _ _ _
  unfold isFinite at *
  rw [decide_eq_true_eq] at *
  exact Nat.lt_of_le_of_lt hmagnitude h

theorem units_ofNat_mono (h : a ≤ b) : (ofNat a).units ≤ (ofNat b).units :=
  units_mono (magnitude_ofUnits_mono (Nat.mul_le_mul_right _ h) _ _ _)

theorem isFinite_mul_ofNat_mono {a' b' : Nat} (ha : a ≤ a') (hb : b ≤ b')
    (h : ((ofNat a').mul (ofNat b')).isFinite = true) :
    ((ofNat a).mul (ofNat b)).isFinite = true :=
  isFinite_mul_mono (units_ofNat_mono ha) (units_ofNat_mono hb) h

/-- The largest finite number but one. -/
def lastButOne : Binary64 := ⟨UInt64.ofNat (infinityBits - 2)⟩

/-- The middle between the two largest finite numbers. -/
def lastMiddle : Nat := (2 ^ 54 - 3) * 2 ^ 970

/-- A word times a power of ten is finite up to the last middle. -/
theorem isFinite_scaled {e : Nat} (ha : a < UInt64.size) (he : e ≤ 308)
    (h : a * 10 ^ e ≤ lastMiddle) : ((ofNat a).mul (ofNat (10 ^ e))).isFinite = true := by
  by_cases hsmall : e ≤ 288
  · have hgreatest : ((ofNat UInt64.size).mul (ofNat (10 ^ 288))).isFinite = true := by
      decide +kernel
    exact isFinite_mul_ofNat_mono ha.le (pow_le_pow_right₀ (by decide) hsmall) hgreatest
  · -- For each of the other powers the greatest factor is tried.
    have hgreatest : ∀ i < 20, ((ofNat (lastMiddle / 10 ^ (289 + i))).mul
        (ofNat (10 ^ (289 + i)))).isFinite = true := by
      decide +kernel
    obtain ⟨i, rfl⟩ := Nat.exists_eq_add_of_le (Nat.lt_of_not_le hsmall)
    have hle : a ≤ lastMiddle / 10 ^ (289 + i) :=
      (Nat.le_div_iff_mul_le (Nat.pow_pos (by decide))).2 h
    exact isFinite_mul_ofNat_mono hle (Nat.le_refl _) (hgreatest i (by omega))

/-- All but the largest finite number are below the last middle, by half the distance to the next
number at least. -/
theorem units_le_lastMiddle (h : x.magnitude + 1 < infinityBits) :
    4 * x.units + 2 * 2 ^ x.scale ≤ 4 * unitsPerOne * lastMiddle := by
  have hle : x.magnitude ≤ lastButOne.magnitude := by
    have hmagnitude : lastButOne.magnitude = infinityBits - 2 := by decide +kernel
    omega
  have hlast : 4 * lastButOne.units + 2 * 2 ^ lastButOne.scale = 4 * unitsPerOne * lastMiddle := by
    decide +kernel
  rw [← hlast]
  exact Nat.add_le_add (Nat.mul_le_mul_left 4 (units_mono hle))
    (Nat.mul_le_mul_left 2 (Nat.pow_le_pow_right Nat.two_pos (scale_mono hle)))

end Upkeep.Binary64

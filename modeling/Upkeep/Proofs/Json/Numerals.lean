import Mathlib.Algebra.Order.Field.Power
import Mathlib.Algebra.Order.Field.Rat
import Mathlib.Data.List.Induction
import Mathlib.Tactic.Positivity
import Mathlib.Tactic.Ring
import Upkeep.Json.Numeral
import Upkeep.Proofs.Binary64.Rounding

/-!
# What numerals denote

A numeral denotes a number unless it is beyond the finite range. `Numeral.size` is the number that
it spells. What is collected of it is a word of its first digits, scaled to no more than that
(`collected_le_size`), and so a numeral that spells no more than the last middle denotes a number
(`isSome_number?`).
-/

namespace Upkeep.Json.Numeral

open Binary64 (lastMiddle)

variable {n : Numeral} {w f : List Nat} {d : Nat}

/-! ## Digits -/

theorem ofDigits_concat (w : List Nat) (d : Nat) : ofDigits (w ++ [d]) = 10 * ofDigits w + d := by
  rw [ofDigits, List.foldl_append]
  rfl

theorem ofDigits_append (w f : List Nat) :
    ofDigits (w ++ f) = ofDigits w * 10 ^ f.length + ofDigits f := by
  induction f using List.reverseRecOn with
  | nil => simp [ofDigits]
  | append_singleton f d ih =>
    rw [← List.append_assoc, ofDigits_concat, ih, ofDigits_concat, List.length_append,
      List.length_singleton]
    ring

theorem ofDigits_lt (h : ∀ d ∈ w, d < 10) : ofDigits w < 10 ^ w.length := by
  induction w using List.reverseRecOn with
  | nil => exact Nat.one_pos
  | append_singleton w d ih =>
    obtain ⟨hw, hd⟩ := List.forall_mem_append.1 h
    have hlast : d < 10 := hd d (List.mem_singleton_self d)
    have hfront := ih hw
    rw [ofDigits_concat, List.length_append, List.length_singleton, Nat.pow_succ]
    omega

/-! ## Collected digits -/

theorem foldl_pushWhole (h : ofDigits w < UInt64.size) :
    w.foldl Collected.pushWhole {} = { significand := ofDigits w } := by
  induction w using List.reverseRecOn with
  | nil => rfl
  | append_singleton w d ih =>
    rw [ofDigits_concat] at h
    rw [List.foldl_append, ih (by omega), List.foldl_cons, List.foldl_nil, Collected.pushWhole,
      ofDigits_concat]
    simp [Nat.not_le.2 h]

/-- Of the digits after the point those are collected that come before the first without room. -/
theorem exists_foldl_pushFraction (h : ofDigits w < UInt64.size) (f : List Nat) :
    ∃ j full, j ≤ f.length ∧ (full = false → j = f.length) ∧
      ofDigits (w ++ f.take j) < UInt64.size ∧
      f.foldl Collected.pushFraction { significand := ofDigits w } =
        ⟨ofDigits (w ++ f.take j), -j, full⟩ := by
  induction f using List.reverseRecOn with
  | nil => exact ⟨0, false, Nat.le_refl 0, fun _ => rfl, by simpa using h, by simp⟩
  | append_singleton f d ih =>
    obtain ⟨j, full, hj, hall, hword, hfold⟩ := ih
    have htake : (f ++ [d]).take j = f.take j := List.take_append_of_le_length hj
    rw [List.foldl_append, hfold, List.foldl_cons, List.foldl_nil, Collected.pushFraction]
    by_cases hfull : full || UInt64.size ≤ 10 * ofDigits (w ++ f.take j) + d
    · refine ⟨j, true, by simp; omega, nofun, by rwa [htake], ?_⟩
      rw [if_pos hfull, htake]
    · obtain ⟨hroom, hfits⟩ := Bool.or_eq_false_iff.1 (Bool.not_eq_true _ ▸ hfull)
      have hnew : ofDigits (w ++ (f ++ [d]).take (j + 1)) = 10 * ofDigits (w ++ f.take j) + d := by
        rw [hall hroom, List.take_length, ← ofDigits_concat, List.append_assoc,
          List.take_of_length_le (by simp)]
      have hlt := of_decide_eq_false hfits
      refine ⟨j + 1, false, by simp; omega, fun _ => by simp [hall hroom], ?_, ?_⟩
      · rw [hnew]
        omega
      · rw [if_neg hfull, hnew, hroom]
        push_cast
        congr 1
        ring

/-- The power of ten that a numeral names. -/
def power (n : Numeral) : Int :=
  if n.exponentNegative then -(ofDigits n.exponent : Int) else ofDigits n.exponent

/-- The number that a numeral spells, without its sign. -/
def size (n : Numeral) : ℚ :=
  ofDigits (n.whole ++ n.fraction) * 10 ^ (n.power - n.fraction.length)

/-- What is collected is a word of first digits. -/
theorem collected_spec (h : ofDigits n.whole < UInt64.size) :
    ∃ j ≤ n.fraction.length, n.collected.significand = ofDigits (n.whole ++ n.fraction.take j) ∧
      n.collected.exponent = n.power - j ∧ n.collected.significand < UInt64.size := by
  obtain ⟨j, full, hj, -, hword, hfold⟩ := exists_foldl_pushFraction h n.fraction
  have hcollected : n.collected =
      ⟨ofDigits (n.whole ++ n.fraction.take j), -j + n.power, full⟩ := by
    rw [collected, foldl_pushWhole h]
    dsimp only
    rw [hfold]
    rfl
  rw [hcollected]
  exact ⟨j, hj, rfl, neg_add_eq_sub _ _, hword⟩

theorem collected_le_size (h : ofDigits n.whole < UInt64.size) :
    (n.collected.significand : ℚ) * 10 ^ n.collected.exponent ≤ n.size := by
  obtain ⟨j, hj, hsignificand, hexponent, -⟩ := collected_spec h
  have hdigits : ofDigits (n.whole ++ n.fraction.take j) * 10 ^ (n.fraction.length - j) ≤
      ofDigits (n.whole ++ n.fraction) := by
    rw [← List.take_append_drop j n.fraction, ← List.append_assoc,
      ofDigits_append (n.whole ++ _) (n.fraction.drop j), List.length_drop]
    simp
  have hpower : (10 : ℚ) ^ (n.power - j) =
      10 ^ (n.fraction.length - j) * 10 ^ (n.power - n.fraction.length) := by
    rw [← zpow_natCast, ← zpow_add₀ (by decide)]
    congr 1
    omega
  rw [size, hsignificand, hexponent, hpower, ← mul_assoc]
  refine mul_le_mul_of_nonneg_right ?_ (by positivity)
  exact_mod_cast hdigits

/-! ## Numbers -/

/-- A word and a power of ten that make a finite number, or a zero with any power. -/
theorem isFinite_or_isZero {a e : Nat} (ha : a < UInt64.size) (h : a * 10 ^ e ≤ lastMiddle) :
    e ≤ 308 ∧ ((Binary64.ofNat a).mul (.ofNat (10 ^ e))).isFinite = true ∨
      308 < e ∧ (Binary64.ofNat a).isZero = true := by
  by_cases he : e ≤ 308
  · exact .inl ⟨he, Binary64.isFinite_scaled ha he h⟩
  · have hlast : lastMiddle < 10 ^ 309 := by decide +kernel
    have hpower : 10 ^ 309 ≤ 10 ^ e :=
      pow_le_pow_right₀ (show 1 ≤ 10 by decide) (Nat.lt_of_not_le he)
    have hzero : a = 0 := by
      by_contra hne
      have hle : 10 ^ e ≤ a * 10 ^ e := Nat.le_mul_of_pos_left _ (Nat.pos_of_ne_zero hne)
      exact absurd ((hpower.trans hle).trans h) (Nat.not_le.2 hlast)
    rw [hzero]
    exact .inr ⟨Nat.lt_of_not_le he, by decide +kernel⟩

/-- What spells no more than the last middle denotes a binary64 number. -/
theorem isSome_real? (h : ofDigits n.whole < UInt64.size) (hsize : n.size ≤ lastMiddle) :
    n.real?.isSome = true := by
  obtain ⟨j, -, -, -, hword⟩ := collected_spec h
  have hle := (collected_le_size h).trans hsize
  rw [real?]
  dsimp only
  by_cases hneg : n.collected.exponent < 0
  · rw [if_pos hneg]
    rfl
  · obtain ⟨e, he⟩ := Int.eq_ofNat_of_zero_le (Int.not_lt.1 hneg)
    have hbound : n.collected.significand * 10 ^ e ≤ lastMiddle := by
      rw [he] at hle
      generalize lastMiddle = m at hle ⊢
      exact_mod_cast hle
    rw [if_neg hneg, he, Int.toNat_natCast]
    rcases isFinite_or_isZero hword hbound with ⟨hle, hfinite⟩ | ⟨hgt, hzero⟩
    · rw [if_pos (by omega), Nat.pow_eq, if_pos hfinite]
      rfl
    · rw [if_neg (by omega), if_pos hzero]
      rfl

theorem isSome_number? (h : ofDigits n.whole < UInt64.size) (hsize : n.size ≤ lastMiddle) :
    n.number?.isSome = true := by
  have hcases {c : Prop} [Decidable c] (whole : c → Number) :
      (if h : c then some (whole h) else n.real?.map .real).isSome = true := by
    split
    · rfl
    · rw [Option.isSome_map]
      exact isSome_real? h hsize
  exact hcases _

end Upkeep.Json.Numeral

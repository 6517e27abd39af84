import Mathlib.Data.Nat.Digits.Defs
import Upkeep.Text.Number

/-!
# Digits of numbers

The digits of a number spell it (`nat?_padded`), however many zeros stand in front of them. The
first digit of a number other than zero is not zero (`toDigits_eq_cons`), so that its digits alone
are the only text of the number without such zeros. A word of 64 bits may have a plus sign besides
(`word?_eq_some_iff`).
-/

namespace Upkeep.Text

variable {c : Char} {s : List Char} {n width : Nat}

theorem digit?_of_isDigit (h : c.isDigit = true) : digit? c = some (c.toNat - '0'.toNat) := by
  rw [Char.isDigit, Bool.and_eq_true] at h
  rw [digit?, if_pos]
  rw [Bool.and_eq_true]
  exact h

theorem isSome_digit? : (digit? c).isSome = c.isDigit := by
  cases hc : c.isDigit with
  | true => rw [digit?_of_isDigit hc, Option.isSome_some]
  | false =>
    rw [digit?, if_neg, Option.isSome_none]
    rw [Char.isDigit] at hc
    exact Bool.not_eq_true _ ▸ hc

theorem digitsFrom_of_isDigit (h : ∀ c ∈ s, c.isDigit = true) (n : Nat) :
    digitsFrom n s = some (Nat.ofDigitChars 10 s n) := by
  induction s generalizing n with
  | nil => rfl
  | cons c s ih =>
    obtain ⟨hc, hs⟩ := List.forall_mem_cons.1 h
    rw [digitsFrom, digit?_of_isDigit hc, Nat.ofDigitChars_cons]
    exact ih hs _

theorem isDigit_of_digitsFrom {m : Nat} (h : digitsFrom m s = some n) :
    ∀ c ∈ s, c.isDigit = true := by
  induction s generalizing m with
  | nil => exact fun _ hc => absurd hc List.not_mem_nil
  | cons c s ih =>
    obtain ⟨d, hd, hrest⟩ := Option.bind_eq_some_iff.1 h
    refine List.forall_mem_cons.2 ⟨?_, ih hrest⟩
    rw [← isSome_digit?, hd, Option.isSome_some]

theorem isDigit_of_mem_toDigits (h : c ∈ Nat.toDigits 10 n) : c.isDigit = true :=
  Nat.isDigit_of_mem_toDigits (by decide) (by decide) h

/-- The first digit of a number other than zero is not zero. -/
theorem toDigits_eq_cons (h : n ≠ 0) :
    ∃ k r, Nat.toDigits 10 n = Nat.digitChar k :: r ∧ 0 < k ∧ k < 10 := by
  induction n using Nat.strong_induction_on with
  | _ n ih =>
    rw [Nat.toDigits_eq_if (by decide)]
    by_cases hlt : n < 10
    · rw [if_pos hlt]
      exact ⟨n, [], rfl, Nat.pos_of_ne_zero h, hlt⟩
    · rw [if_neg hlt]
      obtain ⟨k, r, hdigits, hk⟩ := ih (n / 10) (by omega) (by omega)
      rw [hdigits]
      exact ⟨k, _, rfl, hk⟩

/-! ## Bounds -/

theorem lt_ten_of_digit? {d : Nat} (h : digit? c = some d) : d < 10 := by
  have hdigit : c.isDigit = true := by rw [← isSome_digit?, h, Option.isSome_some]
  rw [digit?_of_isDigit hdigit] at h
  rw [Char.isDigit, Bool.and_eq_true, decide_eq_true_eq, decide_eq_true_eq] at hdigit
  have hle : c.toNat ≤ 57 := hdigit.2
  have hd : c.toNat - 48 = d := Option.some.inj h
  omega

theorem digitsFrom_lt {m : Nat} (h : digitsFrom m s = some n) : n < (m + 1) * 10 ^ s.length := by
  induction s generalizing m with
  | nil =>
    rw [← Option.some.inj h]
    exact Nat.lt_of_lt_of_eq (Nat.lt_succ_self m) (Nat.mul_one _).symm
  | cons c s ih =>
    obtain ⟨d, hd, hrest⟩ := Option.bind_eq_some_iff.1 h
    have hlt := lt_ten_of_digit? hd
    calc n < (10 * m + d + 1) * 10 ^ s.length := ih hrest
      _ ≤ ((m + 1) * 10) * 10 ^ s.length := Nat.mul_le_mul_right _ (by omega)
      _ = (m + 1) * 10 ^ (s.length + 1) := by rw [Nat.mul_assoc, Nat.pow_succ']

/-- A number is bounded by its digits. -/
theorem lt_of_nat? (h : nat? s = some n) : n < 10 ^ s.length := by
  cases s with
  | nil => cases h
  | cons c s =>
    have hlt := digitsFrom_lt h
    rwa [Nat.zero_add, Nat.one_mul] at hlt

/-! ## Zeros in front -/

theorem isDigit_of_mem_padded (h : c ∈ padded width n) : c.isDigit = true := by
  rcases List.mem_append.1 h with hzero | hdigit
  · rw [List.eq_of_mem_replicate hzero]
    rfl
  · exact isDigit_of_mem_toDigits hdigit

theorem padded_ne_nil : padded width n ≠ [] :=
  List.append_ne_nil_of_right_ne_nil _ Nat.toDigits_ne_nil

theorem length_padded (hwidth : 0 < width) (h : n < 10 ^ width) :
    (padded width n).length = width := by
  have hle := (Nat.length_toDigits_le_iff (by decide) hwidth).2 h
  rw [padded, List.length_append, List.length_replicate]
  omega

/-- The digits of a number spell it, with or without zeros in front. -/
theorem nat?_padded (width n : Nat) : nat? (padded width n) = some n := by
  have hspelled : digitsFrom 0 (padded width n) = some n := by
    rw [digitsFrom_of_isDigit fun _ => isDigit_of_mem_padded, padded, Nat.ofDigitChars_append,
      Nat.ofDigitChars_replicate_zero, Nat.mul_zero, Nat.ofDigitChars_ten_toDigits]
  rwa [nat?.eq_2 _ padded_ne_nil]

/-! ## Words of 64 bits -/

/-- The digits of the number, perhaps with zeros in front of them, and with or without a plus
sign. -/
def Spells (s : List Char) (n : Nat) : Prop :=
  ∃ ds, (s = ds ∨ s = '+' :: ds) ∧ ds ≠ [] ∧ (∀ c ∈ ds, c.isDigit = true) ∧
    Nat.ofDigitChars 10 ds 0 = n

theorem nat?_eq_some_iff :
    nat? s = some n ↔ s ≠ [] ∧ (∀ c ∈ s, c.isDigit = true) ∧ Nat.ofDigitChars 10 s 0 = n := by
  constructor
  · intro h
    have hne : s ≠ [] := by
      rintro rfl
      cases h
    rw [nat?.eq_2 _ hne] at h
    have hdigits := isDigit_of_digitsFrom h
    rw [digitsFrom_of_isDigit hdigits] at h
    exact ⟨hne, hdigits, Option.some.inj h⟩
  · rintro ⟨hne, hdigits, rfl⟩
    rw [nat?.eq_2 _ hne, digitsFrom_of_isDigit hdigits]

/-- A word is read from its spellings and from nothing else. -/
theorem word?_eq_some_iff {k : UInt64} : word? s = some k ↔ Spells s k.toNat := by
  constructor
  · intro h
    obtain ⟨n, hn, h⟩ := Option.bind_eq_some_iff.1 h
    obtain ⟨hlt, hk⟩ := Option.ite_none_right_eq_some.1 h
    rw [← Option.some.inj hk, UInt64.toNat_ofNat_of_lt' hlt]
    split at hn
    · exact ⟨_, .inr rfl, nat?_eq_some_iff.1 hn⟩
    · exact ⟨_, .inl rfl, nat?_eq_some_iff.1 hn⟩
  · rintro ⟨ds, hs, hds⟩
    have hword : (if k.toNat < UInt64.size then some (UInt64.ofNat k.toNat) else none) = some k :=
      (if_pos k.toNat_lt_size).trans (congrArg some k.ofNat_toNat)
    have hunsigned (r : List Char) : ds ≠ '+' :: r := by
      rintro rfl
      exact absurd (hds.2.1 '+' List.mem_cons_self) (by decide)
    rcases hs with rfl | rfl
    · rw [word?.eq_2 _ hunsigned, nat?_eq_some_iff.2 hds]
      exact hword
    · rw [word?.eq_1, nat?_eq_some_iff.2 hds]
      exact hword

end Upkeep.Text

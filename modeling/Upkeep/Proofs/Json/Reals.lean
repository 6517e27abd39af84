import Upkeep.Proofs.Binary64.Digits
import Upkeep.Proofs.Json.Numerals
import Upkeep.Proofs.Json.RoundTrip

/-!
# Printed binary64 numbers are read

A finite number is printed as one numeral, with a point or with an exponent, that spells its
shortest digits (`spells_positional`, `spells_scientific`). So it denotes a number again
(`exists_parse_real`). The number may be another one, since reading rounds more than once, but it is
never out of range: all but the largest are below the last middle, and the largest is tried.
-/

namespace Upkeep.Json

open Token Numeral
open Binary64 (lastMiddle)

/-- After any sign, a text is a numeral that spells a number, with a word before the point. -/
def Spells (s : List Char) (v : ℚ) : Prop :=
  ∀ neg : Bool, ∃ n : Numeral, scan ((if neg then ['-'] else []) ++ s) = some [.number n] ∧
    ofDigits n.whole < UInt64.size ∧ n.size = v

variable {w f r : List Char} {c : Nat} {k : Int}

/-! ## Parts of a numeral -/

theorem digitsOf_append (w f : List Char) : digitsOf (w ++ f) = digitsOf w ++ digitsOf f :=
  List.map_append

theorem length_digitsOf (w : List Char) : (digitsOf w).length = w.length := List.length_map _

theorem ofDigits_zeros (j : Nat) : ofDigits (digitsOf (List.replicate j '0')) = 0 := by
  rw [digitsOf, List.map_replicate]
  induction j with
  | zero => rfl
  | succ j ih => rw [List.replicate_succ', ofDigits_concat, ih]; rfl

theorem digitsOf_lt (h : ∀ c ∈ w, c.isDigit = true) : ∀ d ∈ digitsOf w, d < 10 := by
  intro d hd
  obtain ⟨c, hc, rfl⟩ := List.mem_map.1 hd
  have hdigit := h c hc
  simp only [Char.isDigit, Bool.and_eq_true, decide_eq_true_eq, UInt32.le_iff_toNat_le] at hdigit
  have hnine : c.toNat ≤ 57 := hdigit.2
  show c.toNat - 48 < 10
  omega

theorem IsWhole.isDigit (hw : IsWhole w) : ∀ c ∈ w, c.isDigit = true := by
  rcases hw with rfl | ⟨k, r, rfl, -, hlt, hr⟩
  · exact List.forall_mem_singleton.2 rfl
  · exact List.forall_mem_cons.2 ⟨by interval_cases k <;> rfl, hr⟩

theorem ofDigits_lt_size (hw : IsWhole w) (hlength : w.length ≤ 16) :
    ofDigits (digitsOf w) < UInt64.size := by
  have hlt := ofDigits_lt (digitsOf_lt hw.isDigit)
  rw [length_digitsOf] at hlt
  have hpower : 10 ^ w.length ≤ 10 ^ 16 := Nat.pow_le_pow_right (by decide) hlength
  exact (hlt.trans_le hpower).trans (by decide)

theorem takes_fraction {stage : Stage} {n : Numeral} (hstage : stage = .zero ∨ stage = .whole)
    (hn : n.fraction = []) (hf : ∀ c ∈ f, c.isDigit = true) (hne : f ≠ []) :
    Takes (.number stage n) ('.' :: f) []
      (.number .fraction { n with fraction := (digitsOf f).reverse }) := by
  obtain ⟨c, f, rfl⟩ := List.exists_cons_of_ne_nil hne
  obtain ⟨hc, hf⟩ := List.forall_mem_cons.1 hf
  have hpoint : step (.number stage n) '.' = some ([], .number .point n) := by
    rcases hstage with rfl | rfl <;> rfl
  have hfirst : step (.number .point n) c = some ([], .number .fraction
      { n with fraction := [c.toNat - '0'.toNat] ++ n.fraction }) := by
    simp only [step, numberStep, show decimal? c = _ from Text.digit?_of_isDigit hc, hn]
    rfl
  have htakes := collects_fraction.takes_cons hfirst hf
  simp only [hn, List.append_nil] at htakes
  exact takes_silent hpoint htakes

theorem takes_exponent {stage : Stage} {n : Numeral}
    (hstage : stage = .zero ∨ stage = .whole ∨ stage = .fraction)
    (hneg : n.exponentNegative = false) (hn : n.exponent = []) (k : Int) :
    Takes (.number stage n) ('e' :: (if k < 0 then '-' else '+') :: digitChars k.natAbs) []
      (.number .exponent { n with
        exponentNegative := k < 0, exponent := (digitValues k.natAbs).reverse }) := by
  obtain ⟨c, r, hdigits⟩ :=
    List.exists_cons_of_ne_nil (Nat.toDigits_ne_nil (n := k.natAbs) (b := 10))
  have hall : ∀ c' ∈ c :: r, c'.isDigit = true := fun c' hc' =>
    Text.isDigit_of_mem_toDigits (hdigits ▸ hc')
  obtain ⟨hc, hr⟩ := List.forall_mem_cons.1 hall
  have hmark : step (.number stage n) 'e' = some ([], .number .mark n) := by
    rcases hstage with rfl | rfl | rfl <;> rfl
  have hsign : step (.number .mark n) (if k < 0 then '-' else '+') =
      some ([], .number .markSign { n with exponentNegative := k < 0 }) := by
    by_cases hk : k < 0
    · simp only [hk, if_true, decide_true]
      rfl
    · simp only [hk, if_false, decide_false, ← hneg]
      rfl
  have hfirst : step (.number .markSign { n with exponentNegative := k < 0 }) c =
      some ([], .number .exponent { n with
        exponentNegative := k < 0, exponent := [c.toNat - '0'.toNat] ++ n.exponent }) := by
    simp only [step, numberStep, show decimal? c = _ from Text.digit?_of_isDigit hc, hn]
    rfl
  have htakes := collects_exponent.takes_cons (n := { n with exponentNegative := k < 0 }) hfirst hr
  rw [digitChars, digitValues, hdigits]
  have hall := takes_silent hmark (takes_silent hsign htakes)
  simpa only [hn, List.append_nil] using hall

/-! ## The two layouts -/

theorem spells_point (hw : IsWhole w) (hlength : w.length ≤ 16) (hf : ∀ c ∈ f, c.isDigit = true)
    (hne : f ≠ []) :
    Spells (w ++ '.' :: f) (ofDigits (digitsOf w ++ digitsOf f) * 10 ^ (-f.length : Int)) := by
  intro neg
  obtain ⟨stage, hsigned, hstage⟩ := takes_signed neg hw
  have hall := hsigned.append (takes_fraction hstage rfl hf hne)
  refine ⟨{ negative := neg, whole := digitsOf w, fraction := digitsOf f }, ?_,
    ofDigits_lt_size hw hlength, ?_⟩
  · rw [scan, ← List.append_assoc, hall.scanFrom]
    simp [finish, Token.ofDigits]
  · simp [size, power, Numeral.ofDigits, length_digitsOf]

theorem isDigit_of_mem_zeros {j : Nat} : ∀ c ∈ List.replicate j '0', c.isDigit = true :=
  fun _ hc => List.eq_of_mem_replicate hc ▸ rfl

/-- Zeros between the point and the digits. -/
theorem spells_below_one (hf : ∀ c ∈ f, c.isDigit = true) (hne : f ≠ []) (j : Nat) :
    Spells ('0' :: '.' :: (List.replicate j '0' ++ f))
      (ofDigits (digitsOf f) * 10 ^ (-(j + f.length) : Int)) := by
  have hspells := spells_point (f := List.replicate j '0' ++ f) (.inl rfl) (by decide)
    (List.forall_mem_append.2 ⟨isDigit_of_mem_zeros, hf⟩) (List.append_ne_nil_of_right_ne_nil _ hne)
  have hdigits : ofDigits (digitsOf ['0'] ++ digitsOf (List.replicate j '0' ++ f)) =
      ofDigits (digitsOf f) := by
    rw [digitsOf_append, ← List.append_assoc, ofDigits_append, ofDigits_append, ofDigits_zeros]
    simp [show ofDigits (digitsOf ['0']) = 0 from rfl]
  rw [hdigits] at hspells
  simpa using hspells

/-- Zeros between the digits and the point. -/
theorem spells_padded {j : Nat} (hw : IsWhole (w ++ List.replicate j '0'))
    (hlength : w.length + j ≤ 16) :
    Spells (w ++ List.replicate j '0' ++ '.' :: ['0'])
      (ofDigits (digitsOf w) * 10 ^ (j : Int)) := by
  have hspells := spells_point hw (by simpa using hlength)
    (List.forall_mem_singleton.2 (show '0'.isDigit from rfl)) (List.cons_ne_nil _ _)
  have hdigits : ofDigits (digitsOf (w ++ List.replicate j '0') ++ digitsOf ['0']) =
      ofDigits (digitsOf w) * 10 ^ (j + 1) := by
    rw [digitsOf_append, ofDigits_append, ofDigits_append, ofDigits_zeros, length_digitsOf,
      length_digitsOf, List.length_replicate, Nat.pow_succ]
    simp [show ofDigits (digitsOf ['0']) = 0 from rfl, Nat.mul_assoc]
  have hpower : (10 : ℚ) ^ (j + 1) * 10 ^ (-(['0'].length : Int)) = 10 ^ (j : Int) := by
    rw [← zpow_natCast, ← zpow_add₀ (by decide)]
    simp
  rw [hdigits, Nat.cast_mul, Nat.cast_pow, Nat.cast_ofNat, mul_assoc, hpower] at hspells
  exact hspells

section Digits

variable (hpos : 0 < c) (hlt : c < 10) (hr : ∀ c ∈ r, c.isDigit = true)

include hpos hlt hr

/-- The point between the digits. -/
theorem spells_within {j : Nat} (hj : j < r.length) (hword : j ≤ 15) :
    Spells (Nat.digitChar c :: r.take j ++ '.' :: r.drop j)
      (ofDigits (digitsOf (Nat.digitChar c :: r)) * 10 ^ ((j : Int) - r.length)) := by
  have hw : IsWhole (Nat.digitChar c :: r.take j) :=
    .inr ⟨c, _, rfl, hpos, hlt, fun c hc => hr c (List.mem_of_mem_take hc)⟩
  have hlength : (Nat.digitChar c :: r.take j).length ≤ 16 := by
    rw [List.length_cons, List.length_take]
    omega
  have hne : r.drop j ≠ [] := mt List.drop_eq_nil_iff.1 (Nat.not_le.2 hj)
  have hspells := spells_point hw hlength (fun c hc => hr c (List.mem_of_mem_drop hc)) hne
  have hpower : -((r.drop j).length : Int) = j - r.length := by
    rw [List.length_drop]
    omega
  have hdigits : digitsOf (Nat.digitChar c :: r.take j) ++ digitsOf (r.drop j) =
      digitsOf (Nat.digitChar c :: r) := by
    rw [← digitsOf_append, List.cons_append, List.take_append_drop]
  rwa [hpower, hdigits] at hspells

theorem spells_positional (hk : k ≤ 15) :
    Spells (positional (Nat.digitChar c :: r) k)
      (ofDigits (digitsOf (Nat.digitChar c :: r)) * 10 ^ (k - r.length)) := by
  have hwhole (s : List Char) (hs : ∀ c ∈ s, c.isDigit = true) : IsWhole (Nat.digitChar c :: s) :=
    .inr ⟨c, s, rfl, hpos, hlt, hs⟩
  unfold positional
  split
  · rename_i hneg
    have hpower :
        (-(((-k).toNat - 1 : Nat) + (Nat.digitChar c :: r).length) : Int) = k - r.length := by
      rw [List.length_cons]
      omega
    rw [← hpower]
    exact spells_below_one (hwhole r hr).isDigit (by simp) _
  · rename_i hnonneg
    obtain ⟨j, rfl⟩ := Int.eq_ofNat_of_zero_le (Int.not_lt.1 hnonneg)
    simp only [Int.toNat_natCast, List.take_succ_cons, List.drop_succ_cons, List.length_cons]
    by_cases hshort : r.length ≤ j
    · have hpower : ((j - r.length : Nat) : Int) = j - r.length := Int.ofNat_sub hshort
      rw [List.take_of_length_le hshort, List.drop_of_length_le hshort, Nat.add_sub_add_right,
        ← hpower]
      refine spells_padded (hwhole _ ?_) ?_
      · exact List.forall_mem_append.2 ⟨hr, isDigit_of_mem_zeros⟩
      · rw [List.length_cons]
        omega
    · have hfront : j + 1 - ((r.take j).length + 1) = 0 := by
        rw [List.length_take]
        omega
      have hback : (r.drop j).isEmpty = false := by simpa using hshort
      rw [hfront, hback]
      simpa using spells_within hpos hlt hr (Nat.lt_of_not_le hshort) (by omega)

theorem spells_scientific (k : Int) :
    Spells (scientific (Nat.digitChar c :: r) k)
      (ofDigits (digitsOf (Nat.digitChar c :: r)) * 10 ^ (k - r.length)) := by
  intro neg
  have hw : IsWhole [Nat.digitChar c] := .inr ⟨c, [], rfl, hpos, hlt, List.forall_mem_nil _⟩
  obtain ⟨stage, hsigned, hstage⟩ := takes_signed neg hw
  let n : Numeral :=
    { negative := neg, whole := digitsOf [Nat.digitChar c], fraction := digitsOf r
      exponentNegative := k < 0, exponent := digitValues k.natAbs }
  refine ⟨n, ?_, ofDigits_lt_size hw (by simp), ?_⟩
  · cases r with
    | nil =>
      have hall := hsigned.append (takes_exponent (hstage.imp_right .inl) rfl rfl k)
      rw [scientific, scan, ← List.append_assoc, hall.scanFrom]
      simp [finish, Token.ofDigits, digitsOf, n]
    | cons c' r =>
      have hmantissa := hsigned.append (takes_fraction hstage rfl hr (List.cons_ne_nil c' r))
      have hall := hmantissa.append (takes_exponent (.inr (.inr rfl)) rfl rfl k)
      have htext : (if neg then ['-'] else []) ++ scientific (Nat.digitChar c :: c' :: r) k =
          (if neg then ['-'] else []) ++ [Nat.digitChar c] ++ '.' :: c' :: r ++
            'e' :: (if k < 0 then '-' else '+') :: digitChars k.natAbs := by
        simp [scientific]
      rw [scan, htext, hall.scanFrom]
      simp [finish, Token.ofDigits, n]
  · have hpower : n.power = k := by
      simp only [n, power, ofDigits_digitValues, decide_eq_true_eq]
      split <;> omega
    rw [size, hpower, length_digitsOf, ← digitsOf_append]
    rfl

end Digits

/-! ## All finite numbers -/

variable {x : Binary64}

/-- Zero apart, the text of a number spells its shortest digits after the sign. -/
theorem exists_realChars_eq (h : x.isZero = false) :
    ∃ s, realChars x = (if x.isNegative then ['-'] else []) ++ s ∧ Spells s x.shortest.value := by
  obtain ⟨c, r, hdigits, hpos, hlt⟩ := Text.toDigits_eq_cons (Binary64.shortest_spec h).1
  have hr : ∀ c ∈ r, c.isDigit = true := fun c hc =>
    Text.isDigit_of_mem_toDigits (hdigits ▸ List.mem_cons_of_mem _ hc)
  rw [realChars, if_neg (by rw [h]; exact Bool.false_ne_true)]
  dsimp only
  refine ⟨_, rfl, ?_⟩
  rw [digitChars, hdigits]
  generalize hk : x.shortest.exponent + (((Nat.digitChar c :: r).length : Int) - 1) = k
  have hvalue : x.shortest.value =
      ofDigits (digitsOf (Nat.digitChar c :: r)) * 10 ^ (k - r.length) := by
    have hexponent : k - r.length = x.shortest.exponent := by
      rw [← hk, List.length_cons]
      omega
    rw [hexponent, ← hdigits, ← digitValues, ofDigits_digitValues]
    rfl
  rw [hvalue]
  split
  · rename_i hlayout
    exact spells_positional hpos hlt hr hlayout.2
  · exact spells_scientific hpos hlt hr k

/-- What spells no more than the last middle is read as a numeral that denotes a number. -/
theorem Spells.exists_parse {s : List Char} {v : ℚ} (h : Spells s v) (hv : v ≤ lastMiddle)
    (neg : Bool) :
    ∃ n : Numeral, Tree.parse (String.ofList ((if neg then ['-'] else []) ++ s)) = some (.num n) ∧
      n.number?.isSome = true := by
  obtain ⟨n, hscan, hwhole, hsize⟩ := h neg
  exact ⟨n, Tree.parse_ofList_eq_some_iff.2 ⟨_, hscan, rfl⟩, isSome_number? hwhole (hsize ▸ hv)⟩

theorem Number.Survives.exists_parse {n : Number} (h : n.Survives) :
    ∃ m : Numeral, Tree.parse (print (.num n)) = some (.num m) ∧ m.number?.isSome = true := by
  obtain ⟨t, hparse, hnumber⟩ := Option.bind_eq_some_iff.1 h
  cases t with
  | num m => exact ⟨m, hparse, Option.isSome_of_eq_some hnumber⟩
  | _ => cases hnumber

/-- The largest finite number and its negative. -/
theorem eq_of_magnitude (h : x.magnitude + 1 = Binary64.infinityBits) :
    x = ⟨0x7FEFFFFFFFFFFFFF⟩ ∨ x = ⟨0xFFEFFFFFFFFFFFFF⟩ := by
  have hword := x.bits.toNat_lt
  simp only [Binary64.magnitude, Binary64.infinityBits, Binary64.perExponent,
    Binary64.signBit] at h
  have hbits : x.bits.toNat = 0x7FEFFFFFFFFFFFFF ∨ x.bits.toNat = 0xFFEFFFFFFFFFFFFF := by omega
  refine hbits.imp (fun hb => ?_) (fun hb => ?_)
  · exact congrArg Binary64.mk (UInt64.toNat_inj.1 hb)
  · exact congrArg Binary64.mk (UInt64.toNat_inj.1 hb)

theorem exists_parse_real (h : x.isFinite = true) :
    ∃ n : Numeral, Tree.parse (print (.num (.real x))) = some (.num n) ∧
      n.number?.isSome = true := by
  have hprint : print (.num (.real x)) = String.ofList (realChars x) :=
    congrArg String.ofList (if_pos h)
  cases hzero : x.isZero with
  | true =>
    have hspells := spells_padded (w := ['0']) (j := 0) (.inl rfl) (by decide)
    have hvalue : (ofDigits (digitsOf ['0']) : ℚ) * 10 ^ ((0 : Nat) : Int) ≤ lastMiddle := by
      rw [show ofDigits (digitsOf ['0']) = 0 from rfl, Nat.cast_zero, zero_mul]
      exact Nat.cast_nonneg _
    rw [hprint, realChars, if_pos hzero]
    exact hspells.exists_parse hvalue x.isNegative
  | false =>
    have hmagnitude : x.magnitude < Binary64.infinityBits := of_decide_eq_true h
    rcases Nat.lt_or_eq_of_le (Nat.succ_le_of_lt hmagnitude) with hlt | hlast
    · obtain ⟨s, hs, hspells⟩ := exists_realChars_eq hzero
      rw [hprint, hs]
      exact hspells.exists_parse (Binary64.value_shortest_le hzero hlt) x.isNegative
    · have hsurvives : (Number.real x).Survives := by
        rcases eq_of_magnitude hlast with rfl | rfl <;> decide +kernel
      exact hsurvives.exists_parse

end Upkeep.Json

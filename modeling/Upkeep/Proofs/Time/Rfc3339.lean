import Upkeep.Proofs.Text.Digits
import Upkeep.Proofs.Time.Calendar
import Upkeep.Time.Rfc3339

/-!
# Timestamps read back

A printed point in time is read back as itself (`read?_print`) if it is *proper*: its year is
supported, and only the last second of a minute runs on. No other point in time is ever read
(`isProper_of_read?`).
-/

namespace Upkeep.Timestamp

open Calendar Text

/-- A point in time as a clock gives it: the year is supported, and a leap second follows the last
second of a minute. -/
structure IsProper (t : Timestamp) : Prop where
  leastYear_le : leastYear ≤ t.date.year
  le_greatestYear : t.date.year ≤ greatestYear
  nanos_lt : t.nanos < 2 * nanosPerSecond
  leap : nanosPerSecond ≤ t.nanos → t.seconds % 60 = 59

variable {c : Char} {r s : List Char} {n width lo hi : Nat}

/-! ## Parts of a text -/

theorem isBlank_of_isDigit (h : c.isDigit = true) : isBlank c = false := by
  rw [Char.isDigit, Bool.and_eq_true, decide_eq_true_eq, decide_eq_true_eq] at h
  have hlo : 48 ≤ c.toNat := h.1
  have hhi : c.toNat ≤ 57 := h.2
  simp only [isBlank, Bool.or_eq_false_iff, Bool.and_eq_false_iff, decide_eq_false_iff_not,
    beq_eq_false_iff_ne]
  omega

theorem dropBlanks_cons (h : isBlank c = false) : dropBlanks (c :: r) = c :: r := by
  rw [dropBlanks, List.dropWhile_cons_of_neg]
  rw [h]
  exact Bool.false_ne_true

theorem exists_padded (width n : Nat) : ∃ d ds, padded width n = d :: ds ∧ d.isDigit = true := by
  obtain ⟨d, ds, hpadded⟩ := List.exists_cons_of_ne_nil (padded_ne_nil : padded width n ≠ [])
  have hmem : d ∈ padded width n := hpadded ▸ List.mem_cons_self
  exact ⟨d, ds, hpadded, isDigit_of_mem_padded hmem⟩

theorem dropBlanks_padded : dropBlanks (padded width n ++ r) = padded width n ++ r := by
  obtain ⟨d, ds, hpadded, hd⟩ := exists_padded width n
  rw [hpadded]
  exact dropBlanks_cons (isBlank_of_isDigit hd)

theorem number?_digits {ds : List Char} (hdigits : ∀ c ∈ ds, c.isDigit = true)
    (hlength : ds.length ≤ width) (hc : c.isDigit = false) :
    number? width (ds ++ c :: r) = (nat? ds).map (·, c :: r) := by
  have hend : ((c :: r).take (width - ds.length)).takeWhile (fun c => (digit? c).isSome) = [] := by
    cases width - ds.length with
    | zero => rfl
    | succ k => rw [List.take_succ_cons, List.takeWhile_cons_of_neg (by simp [isSome_digit?, hc])]
  have htake : ((ds ++ c :: r).take width).takeWhile (fun c => (digit? c).isSome) = ds := by
    rw [List.take_append, List.take_of_length_le hlength, List.takeWhile_append_of_pos, hend,
      List.append_nil]
    exact fun d hd => isSome_digit?.trans (hdigits d hd)
  rw [number?, htake, List.drop_left]

theorem number?_padded {k : Nat} (hlength : (padded k n).length ≤ width)
    (hc : c.isDigit = false) : number? width (padded k n ++ c :: r) = some (n, c :: r) := by
  rw [number?_digits (fun _ => isDigit_of_mem_padded) hlength hc, nat?_padded]
  rfl

theorem field?_padded (hlo : lo ≤ n) (hhi : n ≤ hi) (hlt : n < 100) (hc : c.isDigit = false) :
    field? 2 lo hi (padded 2 n ++ c :: r) = some (n, c :: r) := by
  have hlength : (padded 2 n).length ≤ 2 := Nat.le_of_eq (length_padded (by decide) hlt)
  rw [field?, dropBlanks_padded, number?_padded hlength hc]
  exact if_pos ⟨hlo, hhi⟩

theorem mark?_cons (h : isBlank c = false) : mark? c (c :: r) = some r := by
  rw [mark?, dropBlanks_cons h]
  exact if_pos rfl

theorem year?_renderYear (y : Int) (hc : c.isDigit = false) :
    year? (renderYear y ++ c :: r) = some (y, c :: r) := by
  have hsigned : number? (padded 4 y.natAbs ++ c :: r).length (padded 4 y.natAbs ++ c :: r) =
      some (y.natAbs, c :: r) := by
    refine number?_padded ?_ hc
    rw [List.length_append]
    exact Nat.le_add_right _ _
  have hmark {d : Char} {s : List Char} (hd : d.isDigit = false) :
      padded 4 y.natAbs ++ c :: r ≠ d :: s := by
    intro heq
    obtain ⟨e, ds, hpadded, he⟩ := exists_padded 4 y.natAbs
    rw [hpadded] at heq
    rw [(List.cons.inj heq).1, hd] at he
    cases he
  rw [renderYear]
  split
  · rename_i hplain
    have habs : (y.natAbs : Int) = y := by omega
    have hlength : (padded 4 y.natAbs).length ≤ 4 :=
      Nat.le_of_eq (length_padded (by decide) (by omega))
    rw [year?, dropBlanks_padded]
    split
    · rename_i heq
      exact absurd heq (hmark rfl)
    · rename_i heq
      exact absurd heq (hmark rfl)
    · simp only [number?_padded hlength hc, Option.map_some, habs]
  · rw [List.cons_append]
    split
    · rename_i hneg
      have habs : -(y.natAbs : Int) = y := by omega
      simp only [year?, dropBlanks_cons (rfl : isBlank '-' = false), hsigned, Option.map_some, habs]
    · rename_i hnonneg
      have habs : (y.natAbs : Int) = y := by omega
      simp only [year?, dropBlanks_cons (rfl : isBlank '+' = false), hsigned, Option.map_some, habs]

/-- The digits of a fraction count from the first place on. -/
theorem fraction?_padded {k : Nat} (hpos : 0 < k) (hle : k ≤ 9) (hlt : n < 10 ^ k) :
    fraction? ('.' :: padded k n ++ ['Z']) = some (n * 10 ^ (9 - k), ['Z']) := by
  have hlength := length_padded hpos hlt
  have hread : number? 9 (padded k n ++ ['Z']) = some (n, ['Z']) :=
    number?_padded (Nat.le_trans (Nat.le_of_eq hlength) hle) rfl
  have hrest : ['Z'].dropWhile (fun c => (digit? c).isSome) = ['Z'] := rfl
  simp [fraction?, hread, hrest, hlength]

theorem fraction?_renderFraction (h : n < nanosPerSecond) :
    fraction? (renderFraction n ++ ['Z']) = some (n, ['Z']) := by
  have hlt : n < 1000000000 := h
  rw [renderFraction]
  split
  · rename_i hzero
    rw [hzero]
    rfl
  · split
    · rename_i hmillis
      rw [fraction?_padded (by decide) (by decide) (by omega)]
      congr 2
      omega
    · split
      · rename_i hmicros
        rw [fraction?_padded (by decide) (by decide) (by omega)]
        congr 2
        omega
      · rw [fraction?_padded (by decide) (by decide) (by omega)]
        simp

theorem exists_renderFraction (n : Nat) :
    ∃ c r, renderFraction n ++ ['Z'] = c :: r ∧ c.isDigit = false := by
  rw [renderFraction]
  split
  · exact ⟨'Z', [], rfl, rfl⟩
  · split
    · exact ⟨'.', _, rfl, rfl⟩
    · split
      · exact ⟨'.', _, rfl, rfl⟩
      · exact ⟨'.', _, rfl, rfl⟩

/-! ## The whole text -/

/-- The parts of a text in Universal Time are read one by one. -/
theorem read?_parts {d : Date} {hour minute second nanos : Nat} {text : String} {t : Timestamp}
    (htext : text.toList = renderYear d.year ++ '-' :: (padded 2 d.month ++
      '-' :: (padded 2 d.day ++ 'T' :: (padded 2 hour ++ ':' :: (padded 2 minute ++
        ':' :: (padded 2 second ++ (renderFraction nanos ++ ['Z'])))))))
    (hd : d.isValid = true) (hhour : hour ≤ 23) (hminute : minute ≤ 59) (hsecond : second ≤ 60)
    (hnanos : nanos < nanosPerSecond)
    (hseconds : t.seconds =
      d.toDays * secondsPerDay + (hour * 3600 + minute * 60 + min second 59 : Nat))
    (ht : t.nanos = nanos + if second = 60 then nanosPerSecond else 0)
    (hvalid : t.date.isValid = true) : read? text = some t := by
  obtain ⟨hmonth, hday⟩ := bounds_of_isValid hd
  obtain ⟨c, r, hfraction, hc⟩ := exists_renderFraction nanos
  have hread : fraction? (c :: r) = some (nanos, ['Z']) :=
    hfraction ▸ fraction?_renderFraction hnanos
  have hdash {r : List Char} : mark? '-' ('-' :: r) = some r := mark?_cons rfl
  have hcolon {r : List Char} : mark? ':' (':' :: r) = some r := mark?_cons rfl
  have hoffset : offset? (dropBlanks ['Z']) = some (0, []) := rfl
  rw [read?, htext, hfraction]
  refine Option.bind_eq_some_iff.2 ⟨_, year?_renderYear d.year rfl, ?_⟩
  refine Option.bind_eq_some_iff.2 ⟨_, hdash, ?_⟩
  refine Option.bind_eq_some_iff.2 ⟨_, field?_padded hmonth.1 hmonth.2 (by omega) rfl, ?_⟩
  refine Option.bind_eq_some_iff.2 ⟨_, hdash, ?_⟩
  refine Option.bind_eq_some_iff.2 ⟨_, field?_padded hday.1 hday.2 (by omega) rfl, ?_⟩
  refine Option.bind_eq_some_iff.2 ⟨_, rfl, ?_⟩
  refine Option.bind_eq_some_iff.2 ⟨_, field?_padded (Nat.zero_le _) hhour (by omega) rfl, ?_⟩
  refine Option.bind_eq_some_iff.2 ⟨_, hcolon, ?_⟩
  refine Option.bind_eq_some_iff.2 ⟨_, field?_padded (Nat.zero_le _) hminute (by omega) rfl, ?_⟩
  refine Option.bind_eq_some_iff.2 ⟨_, hcolon, ?_⟩
  refine Option.bind_eq_some_iff.2 ⟨_, field?_padded (Nat.zero_le _) hsecond (by omega) hc, ?_⟩
  refine Option.bind_eq_some_iff.2 ⟨_, hread, ?_⟩
  refine Option.bind_eq_some_iff.2 ⟨_, hoffset, ?_⟩
  have hutc : (⟨d.toDays * secondsPerDay + (hour * 3600 + minute * 60 + min second 59 : Nat) - 0,
      nanos + if second = 60 then nanosPerSecond else 0⟩ : Timestamp) = t := by
    rw [sub_zero, ← hseconds, ← ht]
  dsimp only
  rw [hutc, hd, hvalid]
  rfl

/-- A proper point in time is read back. -/
theorem read?_print {t : Timestamp} (h : t.IsProper) : read? t.print = some t := by
  have hvalid : t.date.isValid = true := isValid_ofDays h.leastYear_le h.le_greatestYear
  have htext : t.print.toList = renderYear t.date.year ++ '-' :: (padded 2 t.date.month ++
      '-' :: (padded 2 t.date.day ++ 'T' :: (padded 2 (t.secondOfDay / 3600) ++
      ':' :: (padded 2 (t.secondOfDay / 60 % 60) ++ ':' :: (padded 2 (t.secondOfDay % 60 +
        if nanosPerSecond ≤ t.nanos then 1 else 0) ++
        (renderFraction (t.nanos % nanosPerSecond) ++ ['Z'])))))) := by
    rw [print, renderLocal, String.toList_ofList]
    simp only [List.append_assoc, List.cons_append]
  have hdays : t.date.toDays = t.seconds / secondsPerDay := toDays_ofDays _
  have hday : t.secondOfDay < 86400 ∧ t.seconds = t.seconds / secondsPerDay * secondsPerDay +
      t.secondOfDay ∧ (t.secondOfDay % 60 : Int) = t.seconds % 60 := by
    unfold secondOfDay secondsPerDay
    omega
  obtain ⟨hlt, hseconds, hminute⟩ := hday
  have hnanos : t.nanos % nanosPerSecond < nanosPerSecond := Nat.mod_lt _ (by decide)
  have hbound := h.nanos_lt
  have hleap := h.leap
  refine read?_parts htext hvalid (by omega) (by omega) ?_ hnanos ?_ ?_ hvalid
  · split <;> omega
  · rw [hdays]
    split
    · rename_i hnext
      have hlast := hleap hnext
      omega
    · omega
  · split
    · rename_i hnext
      have hlast := hleap hnext
      rw [if_pos (by omega), Nat.mod_eq_sub_mod hnext, Nat.mod_eq_of_lt (by omega)]
      exact (Nat.sub_add_cancel hnext).symm
    · rename_i hwithin
      rw [if_neg (by omega), Nat.mod_eq_of_lt (Nat.not_le.1 hwithin), Nat.add_zero]

/-! ## What is read -/

theorem fraction?_lt (h : fraction? s = some (n, r)) : n < nanosPerSecond := by
  unfold fraction? at h
  split at h
  · rename_i digits
    obtain ⟨⟨m, rest⟩, hm, heq⟩ := Option.map_eq_some_iff.1 h
    obtain ⟨m, hdigits, hrest⟩ := Option.map_eq_some_iff.1 hm
    cases heq
    cases hrest
    generalize hds : (digits.take 9).takeWhile (fun c => (digit? c).isSome) = ds at hdigits
    have hle : ds.length ≤ digits.length ∧ ds.length ≤ 9 := by
      have hwhile : ds <+: digits.take 9 := hds ▸ List.takeWhile_prefix _
      have hlength := hwhile.length_le
      rw [List.length_take] at hlength
      omega
    have hlength : digits.length - (digits.drop ds.length).length = ds.length := by
      rw [List.length_drop]
      omega
    rw [hlength]
    calc m * 10 ^ (9 - ds.length) < 10 ^ ds.length * 10 ^ (9 - ds.length) :=
          Nat.mul_lt_mul_of_pos_right (lt_of_nat? hdigits) (Nat.pow_pos (by decide))
      _ = nanosPerSecond := by rw [← Nat.pow_add, Nat.add_sub_cancel' hle.2]; rfl
  · cases h
    decide

/-- An offset is given in minutes. -/
theorem offset?_emod {offset : Int} (h : offset? s = some (offset, r)) : offset % 60 = 0 := by
  have hsigned {sign : Int} {s : List Char} (h : signedOffset? sign s = some (offset, r)) :
      offset % 60 = 0 := by
    unfold signedOffset? at h
    split at h
    · obtain ⟨a, -, h⟩ := Option.bind_eq_some_iff.1 h
      obtain ⟨b, -, h⟩ := Option.bind_eq_some_iff.1 h
      split at h
      · obtain ⟨c, -, h⟩ := Option.bind_eq_some_iff.1 h
        split at h
        · cases h
        · obtain ⟨d, -, h⟩ := Option.bind_eq_some_iff.1 h
          cases h
          refine Int.emod_eq_zero_of_dvd (Dvd.dvd.mul_left ?_ sign)
          omega
      · cases h
    · cases h
  unfold offset? at h
  split at h
  · cases h; rfl
  · cases h; rfl
  · exact hsigned h
  · exact hsigned h
  · exact hsigned h
  · split at h
    · cases h; rfl
    · cases h
  · cases h

theorem exists_of_separator {f : List Char → Option Timestamp} {t : Timestamp}
    (h : (match s with
      | 't' :: r | 'T' :: r | ' ' :: r => (some r).bind f
      | _ => none) = some t) : ∃ r, f r = some t := by
  split at h
  · exact ⟨_, h⟩
  · exact ⟨_, h⟩
  · exact ⟨_, h⟩
  · cases h

/-- Only proper points in time are read. -/
theorem isProper_of_read? {text : String} {t : Timestamp} (h : read? text = some t) :
    t.IsProper := by
  rw [read?] at h
  obtain ⟨⟨year, s⟩, -, h⟩ := Option.bind_eq_some_iff.1 h
  obtain ⟨s, -, h⟩ := Option.bind_eq_some_iff.1 h
  obtain ⟨⟨month, s⟩, -, h⟩ := Option.bind_eq_some_iff.1 h
  obtain ⟨s, -, h⟩ := Option.bind_eq_some_iff.1 h
  obtain ⟨⟨day, s⟩, -, h⟩ := Option.bind_eq_some_iff.1 h
  obtain ⟨s, h⟩ := exists_of_separator h
  obtain ⟨⟨hour, s⟩, -, h⟩ := Option.bind_eq_some_iff.1 h
  obtain ⟨s, -, h⟩ := Option.bind_eq_some_iff.1 h
  obtain ⟨⟨minute, s⟩, -, h⟩ := Option.bind_eq_some_iff.1 h
  obtain ⟨s, -, h⟩ := Option.bind_eq_some_iff.1 h
  obtain ⟨⟨second, s⟩, -, h⟩ := Option.bind_eq_some_iff.1 h
  obtain ⟨⟨nanos, s⟩, hnanos, h⟩ := Option.bind_eq_some_iff.1 h
  obtain ⟨⟨offset, s⟩, hoffset, h⟩ := Option.bind_eq_some_iff.1 h
  have hlt := fraction?_lt hnanos
  have hminutes := offset?_emod hoffset
  obtain ⟨hvalid, h⟩ := Option.ite_none_right_eq_some.1 h
  rw [Bool.and_eq_true] at hvalid
  have hdate := hvalid.2
  simp only [Date.isValid, Bool.and_eq_true, decide_eq_true_eq] at hdate
  have hleap : nanosPerSecond ≤ nanos + (if second = 60 then nanosPerSecond else 0) →
      second = 60 := by
    split
    · exact fun _ => ‹_›
    · exact fun hle => absurd hlt (Nat.not_lt.2 hle)
  rw [← Option.some.inj h]
  refine ⟨hdate.1.1.1.1.1, hdate.1.1.1.1.2, ?_, fun hle => ?_⟩
  · dsimp only
    split <;> omega
  · have hlast : min second 59 = 59 := by rw [hleap hle]; rfl
    simp only [secondsPerDay, hlast]
    omega

end Upkeep.Timestamp

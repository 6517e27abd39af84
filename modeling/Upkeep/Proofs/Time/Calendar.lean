import Mathlib.Tactic.IntervalCases
import Upkeep.Time.Calendar

/-!
# Dates and days

The date of a number of days leads back to that number (`toDays_ofDays`), and it exists whenever its
year is supported (`isValid_ofDays`). Years begin in March here, and they have the numbers 0 to 399
in an era of 400 years. All rests on one estimate: the year that a day is counted to begins at most
365 days before it, and 365 only if it has a leap day at its end (`yearOfEra_spec`).
-/

namespace Upkeep.Calendar

/-- The days of an era before the year of that number. -/
def yearStart (y : Nat) : Nat := 365 * y + y / 4 - y / 100

/-- The year that a day of an era is counted to. -/
def yearOfEra (d : Nat) : Nat := (d - d / 1460 + d / 36524 - d / 146096) / 365

/-- The year ends with a leap day. -/
def EndsLeap (y : Nat) : Prop := (y + 1) % 4 = 0 ∧ ((y + 1) % 100 = 0 → (y + 1) % 400 = 0)

theorem century_eq {d : Nat} (h : d < 146097) :
    yearOfEra d / 100 = d / 36524 - d / 146096 := by
  unfold yearOfEra
  generalize he : d / 36524 = e
  have hle : e ≤ 4 := by omega
  interval_cases e <;> omega

/-- A day is counted to a year that begins at most 365 days before it, and only if the year ends
with a leap day that many. -/
theorem yearOfEra_spec {d : Nat} (h : d < 146097) :
    yearOfEra d ≤ 399 ∧ yearStart (yearOfEra d) ≤ d ∧ d - yearStart (yearOfEra d) ≤ 365 ∧
      (d - yearStart (yearOfEra d) = 365 → EndsLeap (yearOfEra d)) := by
  have hcentury := century_eq h
  unfold yearStart EndsLeap
  generalize hy : yearOfEra d = y at hcentury ⊢
  unfold yearOfEra at hy
  generalize hg : d / 1460 = g at hy
  generalize he : d / 36524 = e at hy hcentury
  generalize hf : d / 146096 = f at hy hcentury
  have hle : y / 4 ≤ g := by omega
  have hge : g ≤ y / 4 + 1 := by omega
  refine ⟨by omega, by omega, by omega, fun hlast => ?_⟩
  have hfour : g = y / 4 + 1 := by omega
  have hthree : y % 4 = 3 := by omega
  exact ⟨by omega, fun hhundred => by omega⟩

/-- A day of an era by the year, the month from March on and the day of the year. -/
structure Count (n : Int) where
  era : Int
  year : Nat
  month : Nat
  day : Nat
  year_le : year ≤ 399
  day_le : day ≤ 365
  month_eq : month = (5 * day + 2) / 153
  endsLeap : day = 365 → EndsLeap year
  eq : n = era * 146097 + (yearStart year + day : Nat) - 719468
  date : Date.ofDays n =
    if month < 10 then ⟨year + era * 400, month + 3, day - (153 * month + 2) / 5 + 1⟩
    else ⟨year + era * 400 + 1, month - 9, day - (153 * month + 2) / 5 + 1⟩

theorem exists_count (n : Int) : Nonempty (Count n) := by
  generalize hera : (n + 719468) / 146097 = era
  generalize hd : ((n + 719468) % 146097).toNat = d
  obtain ⟨hyear, hstart, hday, hleap⟩ := yearOfEra_spec (d := d) (by omega)
  refine ⟨era, yearOfEra d, (5 * (d - yearStart (yearOfEra d)) + 2) / 153,
    d - yearStart (yearOfEra d), hyear, hday, rfl, hleap, by omega, ?_⟩
  have hof : Date.ofDays n =
      let m := (5 * (d - yearStart (yearOfEra d)) + 2) / 153
      let month := if m < 10 then m + 3 else m - 9
      ⟨yearOfEra d + era * 400 + (if month ≤ 2 then 1 else 0), month,
        d - yearStart (yearOfEra d) - (153 * m + 2) / 5 + 1⟩ := by
    subst hera hd
    rfl
  rw [hof]
  dsimp only
  split
  · rw [if_neg (by omega), add_zero]
  · rw [if_pos (by omega)]

theorem toDays_ofDays (n : Int) : (Date.ofDays n).toDays = n := by
  obtain ⟨era, y, m, k, hy, hk, hm, -, heq, hdate⟩ := exists_count n
  have hstart : (yearStart y : Int) = y * 365 + y / 4 - y / 100 := by
    unfold yearStart
    omega
  rw [hdate]
  split
  · rename_i hlt
    simp only [Date.toDays]
    rw [if_neg (by omega)]
    have hmonth : (m + 3 + 9) % 12 = m := by omega
    rw [hmonth]
    omega
  · rename_i hge
    simp only [Date.toDays]
    rw [if_pos (by omega)]
    have hmonth : (m - 9 + 9) % 12 = m := by omega
    rw [hmonth]
    omega

theorem isLeapYear_of_endsLeap {y : Nat} (h : EndsLeap y) (era : Int) :
    isLeapYear (y + era * 400 + 1) = true := by
  obtain ⟨hfour, hhundred⟩ := h
  simp only [isLeapYear, Bool.and_eq_true, Bool.or_eq_true, bne_iff_ne, ne_eq, decide_eq_true_eq]
  omega

/-- The date of a number of days exists if its year is supported. -/
theorem isValid_ofDays {n : Int} (hleast : leastYear ≤ (Date.ofDays n).year)
    (hgreatest : (Date.ofDays n).year ≤ greatestYear) : (Date.ofDays n).isValid = true := by
  obtain ⟨era, y, m, k, hy, hk, hm, hleap, heq, hdate⟩ := exists_count n
  have hdays : 1 ≤ (Date.ofDays n).month ∧ (Date.ofDays n).month ≤ 12 ∧
      1 ≤ (Date.ofDays n).day ∧
      (Date.ofDays n).day ≤ daysInMonth (Date.ofDays n).year (Date.ofDays n).month := by
    rw [hdate]
    by_cases hlast : m = 11
    · subst hlast
      rw [if_neg (by omega)]
      dsimp only
      refine ⟨by omega, by omega, by omega, ?_⟩
      show k - (153 * 11 + 2) / 5 + 1 ≤ if isLeapYear (y + era * 400 + 1) then 29 else 28
      by_cases hday : k = 365
      · rw [isLeapYear_of_endsLeap (hleap hday) era, if_pos rfl]
        omega
      · split <;> omega
    · have hle : m ≤ 10 := by omega
      interval_cases m <;>
        · simp only [daysInMonth, Nat.reduceLT, Nat.reduceAdd, Nat.reduceSub, if_true, if_false]
          omega
  simp [Date.isValid, hleast, hgreatest, hdays]

theorem daysInMonth_le (y : Int) (m : Nat) : daysInMonth y m ≤ 31 := by
  unfold daysInMonth
  split <;> (try split) <;> decide

theorem bounds_of_isValid {d : Date} (h : d.isValid = true) :
    (1 ≤ d.month ∧ d.month ≤ 12) ∧ 1 ≤ d.day ∧ d.day ≤ 31 := by
  simp only [Date.isValid, Bool.and_eq_true, decide_eq_true_eq] at h
  exact ⟨⟨h.1.1.1.2, h.1.1.2⟩, h.1.2, Nat.le_trans h.2 (daysInMonth_le _ _)⟩

end Upkeep.Calendar

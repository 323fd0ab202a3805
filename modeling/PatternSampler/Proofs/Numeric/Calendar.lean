import Mathlib
import PatternSampler.Numeric.Calendar

set_option autoImplicit false

/-!
# Years and their days

The days in front of the years are a sum of lengths of years, and each day belongs to the year whose
days it stands among.

## Main results

* `daysBefore_succ` — from one year to the next there are as many days as the year has.
* `sum_daysInYear` — the days of consecutive years.
* `Date.exists_cycles` — the cycles, centuries and leap cycles in front of a day.
* `Date.daysBefore_year_ofDayNumber` — a day number lies in the year of its date.
-/

namespace PatternSampler

/-! ## Lengths of years -/

/-- The leap years, in arithmetic. -/
lemma isLeapYear_iff (year : Int) :
    isLeapYear year = true ↔ year % 4 = 0 ∧ (year % 100 ≠ 0 ∨ year % 400 = 0) := by
  simp [isLeapYear]

/-- A year has at least 365 days. -/
lemma le_daysInYear (year : Int) : 365 ≤ daysInYear year := by
  unfold daysInYear
  split <;> decide

/-- From one year to the next there are as many days as the year has. -/
theorem daysBefore_succ (year : Int) :
    daysBefore (year + 1) = daysBefore year + daysInYear year := by
  simp only [daysBefore, daysInYear]
  by_cases h : isLeapYear year = true
  · rw [if_pos h]
    rw [isLeapYear_iff] at h
    omega
  · rw [if_neg h]
    rw [isLeapYear_iff] at h
    omega

/-- So many years have at least 365 days each. -/
lemma daysBefore_add (first : Int) (years : Nat) :
    daysBefore first + 365 * years ≤ daysBefore (first + years) := by
  induction years with
  | zero => simp
  | succ years ih =>
    have hsucc := daysBefore_succ (first + years)
    have hle := le_daysInYear (first + years)
    rw [show first + ((years + 1 : Nat) : Int) = first + years + 1 by omega, hsucc]
    omega

/-- A later year starts no earlier. -/
lemma daysBefore_mono {first last : Int} (h : first ≤ last) :
    daysBefore first ≤ daysBefore last := by
  obtain ⟨years, rfl⟩ := Int.le.dest h
  have := daysBefore_add first years
  omega

/-- The days of consecutive years. -/
theorem sum_daysInYear {first last : Int} (h : first ≤ last) :
    ((∑ year ∈ Finset.Icc first last, daysInYear year : Nat) : Int) =
      daysBefore (last + 1) - daysBefore first := by
  induction last, h using Int.leInduction with
  | base =>
    have := daysBefore_succ first
    rw [Finset.Icc_self, Finset.sum_singleton]
    omega
  | succ last hle ih =>
    have hsucc := daysBefore_succ (last + 1)
    have hnew : last + 1 ∉ Finset.Icc first last := by simp
    rw [← Finset.insert_Icc_right_eq_Icc_add_one (Int.le_add_one hle), Finset.sum_insert hnew]
    omega

/-! ## The year of a day -/

/-- The days in front of a year that is given by cycles, centuries, leap cycles and years. -/
lemma daysBefore_of_cycles (cycle : Int) {century leapCycle year : Nat} (hcentury : century ≤ 3)
    (hleap : leapCycle ≤ 24) (hyear : year ≤ 3) :
    daysBefore (400 * cycle + 100 * century + 4 * leapCycle + year + 1) =
      146097 * cycle + 36524 * century + 1461 * leapCycle + 365 * year := by
  have hfour : (400 * cycle + 100 * century + 4 * leapCycle + year) / 4 =
      100 * cycle + 25 * century + leapCycle := by omega
  have hhundred : (400 * cycle + 100 * century + 4 * leapCycle + year) / 100 =
      4 * cycle + century := by omega
  have hcycle : (400 * cycle + 100 * century + 4 * leapCycle + year) / 400 = cycle := by omega
  simp only [daysBefore, Int.add_sub_cancel, hfour, hhundred, hcycle]
  omega

/-- The last year of a leap cycle is a leap year, except at the end of most centuries. -/
lemma daysInYear_of_cycles (cycle : Int) {century leapCycle : Nat} (hleap : leapCycle ≤ 24)
    (h : leapCycle < 24 ∨ century = 3) :
    daysInYear (400 * cycle + 100 * century + 4 * leapCycle + 3 + 1) = 366 := by
  rw [daysInYear, if_pos]
  rw [isLeapYear_iff]
  omega

/-- The parts of a day number, from the outside in, and the day of the year that they lead to. A
366th day is left only in the last year of a leap cycle, and not at the end of most centuries. -/
lemma Date.exists_cycles (number : Int) :
    ∃ (cycle : Int) (century leapCycle year day : Nat), century ≤ 3 ∧ leapCycle ≤ 24 ∧ year ≤ 3 ∧
      number = 146097 * cycle + 36524 * century + 1461 * leapCycle + 365 * year + day ∧
      (day < 365 ∨ day = 365 ∧ year = 3 ∧ (leapCycle < 24 ∨ century = 3)) ∧
      ofDayNumber number =
        ofYearDay (400 * cycle + 100 * century + 4 * leapCycle + year + 1) day := by
  refine ⟨number / 146097, min ((number % 146097).toNat / 36524) 3, _, _, _,
    ?_, ?_, ?_, ?_, ?_, rfl⟩
  all_goals omega

/-- A day number lies in the year of its date.

**Proof sketch.** The parts of the day number add up to the days in front of the year and the day in
the year. The day in the year can only be the 366th one in the last year of a leap cycle, and then
this year is a leap year. -/
theorem Date.daysBefore_year_ofDayNumber (number : Int) :
    daysBefore (ofDayNumber number).year ≤ number ∧
      number < daysBefore ((ofDayNumber number).year + 1) := by
  obtain ⟨cycle, century, leapCycle, year, day, hcentury, hleap, hyear, hnumber, hday, hdate⟩ :=
    exists_cycles number
  rw [daysBefore_succ, hdate]
  simp only [ofYearDay]
  rw [daysBefore_of_cycles cycle hcentury hleap hyear]
  refine ⟨by omega, ?_⟩
  obtain hshort | ⟨rfl, rfl, hfull⟩ := hday
  · have := le_daysInYear (400 * cycle + 100 * century + 4 * leapCycle + year + 1)
    omega
  · have := daysInYear_of_cycles cycle hleap hfull
    rw [show ((3 : Nat) : Int) = 3 from rfl]
    omega

/-- The date of a day number is the day that lies as far in its year. -/
lemma Date.ofDayNumber_eq (number : Int) :
    ofDayNumber number = ofYearDay (ofDayNumber number).year
      (number - daysBefore (ofDayNumber number).year).toNat := by
  obtain ⟨cycle, century, leapCycle, year, day, hcentury, hleap, hyear, hnumber, -, hdate⟩ :=
    exists_cycles number
  have hinYear : number -
      daysBefore (400 * cycle + 100 * century + 4 * leapCycle + year + 1) = day := by
    rw [daysBefore_of_cycles cycle hcentury hleap hyear]
    omega
  rw [hdate]
  simp only [ofYearDay]
  rw [hinYear, Int.toNat_natCast]

/-- The days in front of a year have dates of earlier years. -/
lemma Date.year_ofDayNumber_lt {number year : Int} (h : number < daysBefore year) :
    (ofDayNumber number).year < year := by
  by_contra hge
  have hmono := daysBefore_mono (Int.not_lt.1 hge)
  have := (daysBefore_year_ofDayNumber number).1
  omega

end PatternSampler

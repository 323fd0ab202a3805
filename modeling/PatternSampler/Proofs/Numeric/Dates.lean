import Mathlib
import PatternSampler.Proofs.Numeric.Calendar
import PatternSampler.Proofs.Numeric.Numerals

set_option autoImplicit false

/-!
# Days and their dates

Day numbers and the days of the calendar belong to each other one by one and in the same order, and
different days are written differently.

## Main definitions

* `Date.lengthOfMonth`, `Date.IsDay` — the months and the dates that the calendar has.
* `Date.Before` — the order of dates.
* `Date.dayNumber` — the number of days from the start of the year one to a date.
* `Date.since` — the date of a number of days after the start of a year.

## Main results

* `Date.isDay_ofDayNumber`, `Date.dayNumber_ofDayNumber`, `Date.ofDayNumber_dayNumber` — day numbers
  are days.
* `Date.bijOn_since` — the days of consecutive years.
* `Date.injOn_render` — a written date tells the day, whatever the separator.

## Implementation notes

Only the year of a date has a varying width. A written date is therefore taken apart from its end:
two characters of the day, the separator, two characters of the month, the separator.
-/

namespace PatternSampler

/-! ## Months -/

/-- The months of a year have the days of the year. -/
lemma sum_monthLengths (year : Int) : (monthLengths year).sum = daysInYear year := by
  unfold monthLengths daysInYear
  split <;> rfl

namespace Date

/-- A day of a month behind the months in front of it. -/
lemma monthDay_eq {lengths : List Nat} {i rest length : Nat} (month : Nat)
    (hlength : lengths[i]? = some length) (hrest : rest < length) :
    monthDay month lengths ((lengths.take i).sum + rest) = (month + i, rest + 1) := by
  induction lengths generalizing month i with
  | nil => simp at hlength
  | cons head later ih =>
    cases i with
    | zero =>
      obtain rfl := Option.some.inj hlength
      rw [List.take_zero, List.sum_nil, Nat.zero_add, monthDay, if_pos hrest]
      rfl
    | succ i =>
      rw [List.take_succ_cons, List.sum_cons, monthDay, if_neg (by omega),
        show head + (later.take i).sum + rest - head = (later.take i).sum + rest by omega,
        ih (month + 1) hlength, Nat.add_right_comm, Nat.add_assoc]

/-- Each day of a row of months belongs to one of them. -/
lemma exists_month {lengths : List Nat} {day : Nat} (h : day < lengths.sum) :
    ∃ i rest length, lengths[i]? = some length ∧ rest < length ∧
      day = (lengths.take i).sum + rest := by
  induction lengths generalizing day with
  | nil => simp at h
  | cons head later ih =>
    rcases Nat.lt_or_ge day head with hhead | hlater
    · exact ⟨0, day, head, rfl, hhead, by simp⟩
    · rw [List.sum_cons] at h
      have hbehind : day - head < later.sum := by omega
      obtain ⟨i, rest, length, hlength, hrest, hday⟩ := ih hbehind
      refine ⟨i + 1, rest, length, hlength, hrest, ?_⟩
      rw [List.take_succ_cons, List.sum_cons]
      omega

/-- A month and the months in front of it end in front of all later months. -/
lemma sum_take_add_le {lengths : List Nat} {i j length : Nat} (h : lengths[i]? = some length)
    (hij : i < j) : (lengths.take i).sum + length ≤ (lengths.take j).sum := by
  induction lengths generalizing i j with
  | nil => simp at h
  | cons head later ih =>
    obtain ⟨j, rfl⟩ := Nat.exists_eq_add_one_of_ne_zero (Nat.ne_zero_of_lt hij)
    cases i with
    | zero =>
      obtain rfl := Option.some.inj h
      simp
    | succ i =>
      have := ih h (Nat.lt_of_succ_lt_succ hij)
      rw [List.take_succ_cons, List.sum_cons, List.take_succ_cons, List.sum_cons]
      omega

/-! ## Days -/

/-- The number of days of a month. The second month is longer in the years that are multiples of
four, except for those of a hundred that are not of four hundred. -/
def lengthOfMonth (year : Int) (month : Nat) : Nat :=
  if month = 2 then (if 4 ∣ year ∧ (100 ∣ year → 400 ∣ year) then 29 else 28)
  else if month = 4 ∨ month = 6 ∨ month = 9 ∨ month = 11 then 30
  else 31

/-- A date of the calendar: the year has the month, and the month has the day. -/
structure IsDay (d : Date) : Prop where
  month_pos : 1 ≤ d.month
  month_le : d.month ≤ 12
  day_pos : 1 ≤ d.day
  day_le : d.day ≤ lengthOfMonth d.year d.month

/-- Of two dates, the first one comes before the second one. -/
def Before (d e : Date) : Prop :=
  d.year < e.year ∨ d.year = e.year ∧ (d.month < e.month ∨ d.month = e.month ∧ d.day < e.day)

/-- The number of days from the start of the year to a date. -/
def yearDay (d : Date) : Nat := ((monthLengths d.year).take (d.month - 1)).sum + (d.day - 1)

/-- The number of days from the start of the year one to a date. -/
def dayNumber (d : Date) : Int := daysBefore d.year + d.yearDay

section IsDay

variable {d e : Date}

/-- The table of months has their lengths. -/
lemma getElem?_monthLengths (year : Int) {i : Nat} (h : i < 12) :
    (monthLengths year)[i]? = some (lengthOfMonth year (i + 1)) := by
  have hleap : isLeapYear year = true ↔ 4 ∣ year ∧ (100 ∣ year → 400 ∣ year) := by
    rw [isLeapYear_iff]
    omega
  interval_cases i <;> simp [monthLengths, lengthOfMonth, hleap]

/-- The table of months has the length of each month. -/
lemma IsDay.getElem?_monthLengths (h : d.IsDay) :
    (monthLengths d.year)[d.month - 1]? = some (lengthOfMonth d.year d.month) := by
  have hpos := h.month_pos
  have hle := h.month_le
  rw [Date.getElem?_monthLengths d.year (by omega), Nat.sub_add_cancel hpos]

/-- No month has more than 31 days. -/
lemma lengthOfMonth_le (year : Int) (month : Nat) : lengthOfMonth year month ≤ 31 := by
  unfold lengthOfMonth
  split_ifs <;> decide

/-- No date has a day above 31. -/
lemma IsDay.day_le_31 (h : d.IsDay) : d.day ≤ 31 := h.day_le.trans (lengthOfMonth_le _ _)

/-- A date does not lie in front of its year. -/
lemma daysBefore_le_dayNumber (d : Date) : daysBefore d.year ≤ d.dayNumber := by
  unfold dayNumber
  omega

/-- A date lies in its year. -/
lemma IsDay.yearDay_lt (h : d.IsDay) : d.yearDay < daysInYear d.year := by
  have hmonth := h.month_le
  have hsum := sum_take_add_le (j := 12) h.getElem?_monthLengths (by omega)
  rw [show (monthLengths d.year).take 12 = monthLengths d.year from rfl, sum_monthLengths] at hsum
  have hpos := h.day_pos
  have hle := h.day_le
  unfold yearDay
  omega

/-- A date lies in front of the next year. -/
lemma IsDay.dayNumber_lt (h : d.IsDay) : d.dayNumber < daysBefore (d.year + 1) := by
  have := h.yearDay_lt
  rw [daysBefore_succ]
  unfold dayNumber
  omega

/-- Later days have larger numbers. -/
lemma IsDay.dayNumber_lt_of_before (hd : d.IsDay) (h : d.Before e) :
    d.dayNumber < e.dayNumber := by
  obtain hyear | ⟨hyear, hmonth | ⟨hmonth, hday⟩⟩ := h
  · have := daysBefore_mono (Int.add_one_le_of_lt hyear)
    exact hd.dayNumber_lt.trans_le (this.trans (daysBefore_le_dayNumber e))
  · have hpos := hd.day_pos
    have hle := hd.day_le
    have hmonthPos := hd.month_pos
    have hsum := sum_take_add_le (j := e.month - 1) hd.getElem?_monthLengths (by omega)
    unfold dayNumber yearDay
    rw [← hyear]
    omega
  · have hpos := hd.day_pos
    unfold dayNumber yearDay
    rw [← hyear, ← hmonth]
    omega

end IsDay

/-- Of two dates one comes first, or they are equal. -/
lemma before_or_eq_or_before (d e : Date) : d.Before e ∨ d = e ∨ e.Before d := by
  obtain ⟨year, month, day⟩ := d
  obtain ⟨year', month', day'⟩ := e
  simp only [Before, mk.injEq]
  omega

/-- The date of a day of a year is a day of the calendar, as far in the year as asked for. -/
lemma ofYearDay_spec {year : Int} {day : Nat} (h : day < daysInYear year) :
    (ofYearDay year day).IsDay ∧ (ofYearDay year day).year = year ∧
      (ofYearDay year day).yearDay = day := by
  rw [← sum_monthLengths] at h
  obtain ⟨i, rest, length, hlength, hrest, rfl⟩ := exists_month h
  have hi : i < 12 := (List.getElem?_eq_some_iff.1 hlength).1
  have hdate :
      ofYearDay year (((monthLengths year).take i).sum + rest) = ⟨year, i + 1, rest + 1⟩ := by
    simp only [ofYearDay, monthDay_eq 1 hlength hrest, Nat.add_comm 1 i]
  rw [getElem?_monthLengths year hi] at hlength
  obtain rfl := Option.some.inj hlength
  rw [hdate]
  exact ⟨⟨Nat.succ_pos i, hi, Nat.succ_pos rest, hrest⟩, rfl, rfl⟩

/-- A day of the calendar is the date of its day in the year. -/
lemma IsDay.ofYearDay_eq {d : Date} (h : d.IsDay) : ofYearDay d.year d.yearDay = d := by
  have hmonth := h.month_pos
  have hpos := h.day_pos
  have hle := h.day_le
  have hrest : d.day - 1 < lengthOfMonth d.year d.month := by omega
  simp only [ofYearDay, yearDay, monthDay_eq 1 h.getElem?_monthLengths hrest]
  rw [show 1 + (d.month - 1) = d.month by omega, Nat.sub_add_cancel hpos]

/-! ## Day numbers -/

/-- The days behind the start of a year have dates of this year and later ones. -/
lemma le_year_ofDayNumber {year number : Int} (h : daysBefore year ≤ number) :
    year ≤ (ofDayNumber number).year := by
  by_contra hlt
  have hmono := daysBefore_mono (Int.add_one_le_of_lt (Int.not_le.1 hlt))
  have := (daysBefore_year_ofDayNumber number).2
  omega

/-- The day of a year at the day number that it has. -/
lemma ofDayNumber_daysBefore_add {year : Int} {day : Nat} (h : day < daysInYear year) :
    ofDayNumber (daysBefore year + day) = ofYearDay year day := by
  have hyear : (ofDayNumber (daysBefore year + day)).year = year := by
    refine le_antisymm (Int.lt_add_one_iff.1 (year_ofDayNumber_lt ?_)) (le_year_ofDayNumber ?_)
    · rw [daysBefore_succ]
      omega
    · omega
  rw [ofDayNumber_eq, hyear, show daysBefore year + day - daysBefore year = day by omega,
    Int.toNat_natCast]

/-- The day with a number is a date of the calendar and has that number. -/
lemma ofDayNumber_spec (number : Int) :
    (ofDayNumber number).IsDay ∧ (ofDayNumber number).dayNumber = number := by
  obtain ⟨hle, hlt⟩ := daysBefore_year_ofDayNumber number
  rw [daysBefore_succ] at hlt
  have hinYear : (number - daysBefore (ofDayNumber number).year).toNat <
      daysInYear (ofDayNumber number).year := by omega
  obtain ⟨hday, -, hyearDay⟩ := ofYearDay_spec hinYear
  rw [← ofDayNumber_eq] at hday hyearDay
  refine ⟨hday, ?_⟩
  rw [dayNumber, hyearDay]
  omega

/-- Each day number has a day of the calendar. -/
theorem isDay_ofDayNumber (number : Int) : (ofDayNumber number).IsDay := (ofDayNumber_spec number).1

/-- The day of a day number has this number. -/
theorem dayNumber_ofDayNumber (number : Int) : (ofDayNumber number).dayNumber = number :=
  (ofDayNumber_spec number).2

/-- A day of the calendar is the day of its number. -/
theorem ofDayNumber_dayNumber {d : Date} (h : d.IsDay) : ofDayNumber d.dayNumber = d := by
  rw [dayNumber, ofDayNumber_daysBefore_add h.yearDay_lt, h.ofYearDay_eq]

/-- Larger numbers have later days. -/
theorem before_ofDayNumber {m n : Int} (h : m < n) : (ofDayNumber m).Before (ofDayNumber n) := by
  obtain hbefore | heq | hafter := before_or_eq_or_before (ofDayNumber m) (ofDayNumber n)
  · exact hbefore
  · have hnumber := congrArg dayNumber heq
    rw [dayNumber_ofDayNumber, dayNumber_ofDayNumber] at hnumber
    exact absurd hnumber h.ne
  · have hnumber := (isDay_ofDayNumber n).dayNumber_lt_of_before hafter
    rw [dayNumber_ofDayNumber, dayNumber_ofDayNumber] at hnumber
    exact absurd hnumber h.asymm

/-- The day that comes `offset` days after the first day of the year `first`. -/
def since (first : Int) (offset : Nat) : Date := ofDayNumber (daysBefore first + offset)

/-- The days of consecutive years, counted from the first day of the first one. -/
theorem bijOn_since {first last : Int} {days : Nat}
    (h : daysBefore first + days = daysBefore (last + 1)) :
    Set.BijOn (since first) (Set.Iio days) {d | d.IsDay ∧ first ≤ d.year ∧ d.year ≤ last} := by
  refine ⟨fun offset hoffset => ⟨isDay_ofDayNumber _, le_year_ofDayNumber (by omega), ?_⟩, ?_, ?_⟩
  · rw [Set.mem_Iio] at hoffset
    exact Int.lt_add_one_iff.1 (year_ofDayNumber_lt (by omega))
  · intro offset _ offset' _ heq
    have hnumber := congrArg dayNumber heq
    simp only [since, dayNumber_ofDayNumber] at hnumber
    omega
  · rintro d ⟨hday, hfirst, hlast⟩
    have hle := (daysBefore_mono hfirst).trans (daysBefore_le_dayNumber d)
    have hlt := hday.dayNumber_lt.trans_le (daysBefore_mono (Int.add_le_add_right hlast 1))
    obtain ⟨offset, hoffset⟩ := Int.le.dest hle
    refine ⟨offset, by rw [Set.mem_Iio]; omega, ?_⟩
    rw [since, hoffset, ofDayNumber_dayNumber hday]

/-- The first of all days is the first of January. -/
lemma since_zero (first : Int) : since first 0 = ⟨first, 1, 1⟩ := by
  have hday : (⟨first, 1, 1⟩ : Date).IsDay := ⟨by simp, by simp, by simp, by simp [lengthOfMonth]⟩
  rw [← ofDayNumber_dayNumber hday]
  rfl

/-- The last of all days is the last of December. -/
lemma since_last {first last : Int} {days : Nat}
    (h : daysBefore first + (days + 1 : Nat) = daysBefore (last + 1)) :
    since first days = ⟨last, 12, 31⟩ := by
  have hday : (⟨last, 12, 31⟩ : Date).IsDay := ⟨by simp, by simp, by simp, by simp [lengthOfMonth]⟩
  have hyearDay : (⟨last, 12, 31⟩ : Date).yearDay + 1 = daysInYear last := by
    simp only [yearDay, monthLengths, daysInYear]
    split <;> rfl
  rw [daysBefore_succ] at h
  rw [← ofDayNumber_dayNumber hday, since, dayNumber]
  congr 1
  simp only
  omega

/-! ## Written days -/

/-- A written date tells the day, whatever the separator. -/
theorem injOn_render (separator : String) : Set.InjOn (render separator) {d | d.IsDay} := by
  intro d hd e he h
  have hday (d : Date) (hd : d.IsDay) : (zeroPaddedNat 2 d.day).toList.length = 2 :=
    length_zeroPaddedNat (by decide) (hd.day_le_31.trans_lt (by decide))
  have hmonth (d : Date) (hd : d.IsDay) : (zeroPaddedNat 2 d.month).toList.length = 2 :=
    length_zeroPaddedNat (by decide) (hd.month_le.trans_lt (by decide))
  have hchars := congrArg String.toList h
  simp only [render, String.toList_append] at hchars
  obtain ⟨hchars, hdays⟩ := List.append_inj' hchars ((hday d hd).trans (hday e he).symm)
  obtain ⟨hchars, -⟩ := List.append_inj' hchars rfl
  obtain ⟨hchars, hmonths⟩ := List.append_inj' hchars ((hmonth d hd).trans (hmonth e he).symm)
  obtain ⟨hyears, -⟩ := List.append_inj' hchars rfl
  have hyearEq := zeroPadded_injective 4 (String.toList_inj.1 hyears)
  have hmonthEq := zeroPaddedNat_injective 2 (String.toList_inj.1 hmonths)
  have hdayEq := zeroPaddedNat_injective 2 (String.toList_inj.1 hdays)
  cases d
  cases e
  rw [mk.injEq]
  exact ⟨hyearEq, hmonthEq, hdayEq⟩

end Date

end PatternSampler

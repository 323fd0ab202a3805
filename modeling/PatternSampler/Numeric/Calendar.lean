import PatternSampler.Text.Numeral

set_option autoImplicit false

/-!
# The calendar

Dates of the proleptic Gregorian calendar, which has a year zero and negative years before it.

## Main definitions

* `Date` — a year, a month and a day of the month.
* `Date.firstYear`, `Date.lastYear` — the years that have dates.
* `daysBefore` — the number of days from the start of the year one to the start of a year.
* `Date.ofYearDay` — the date of a day of a year, counted from zero.
* `Date.ofDayNumber` — the date of a number of days after the start of the year one.
* `Date.render` — year, month and day around a separator.

## Implementation notes

Four hundred years have a fixed number of days. Inside them the years are found by counting
centuries, then leap cycles of four years, then years, of which the last one in each group may be
a day longer or shorter than the others.
-/

namespace PatternSampler

/-- A day of the calendar. -/
structure Date where
  year : Int
  month : Nat
  day : Nat
deriving DecidableEq, Repr, Inhabited

/-- Leap years are the multiples of four, except those of a hundred that are not of four hundred. -/
def isLeapYear (year : Int) : Bool := year % 4 == 0 && (year % 100 != 0 || year % 400 == 0)

/-- Number of days of a year. -/
def daysInYear (year : Int) : Nat := if isLeapYear year then 366 else 365

/-- The lengths of the months of a year. -/
def monthLengths (year : Int) : List Nat :=
  [31, if isLeapYear year then 29 else 28, 31, 30, 31, 30, 31, 31, 30, 31, 30, 31]

/-- Days from the first day of the year one to the first day of `year`. -/
def daysBefore (year : Int) : Int :=
  let y := year - 1
  365 * y + y / 4 - y / 100 + y / 400

namespace Date

/-- The first year that has dates. -/
def firstYear : Int := -262143

/-- The last year that has dates. -/
def lastYear : Int := 262142

/-- The month and the day of the month of a day counted from zero, from the month `month` on. -/
def monthDay (month : Nat) : List Nat → Nat → Nat × Nat
  | [], rest => (month, rest + 1)
  | length :: later, rest =>
    if rest < length then (month, rest + 1) else monthDay (month + 1) later (rest - length)

/-- The date of a day of a year, counted from zero. -/
def ofYearDay (year : Int) (day : Nat) : Date :=
  let (month, day) := monthDay 1 (monthLengths year) day
  ⟨year, month, day⟩

/-- The date that comes `number` days after the first day of the year one. -/
def ofDayNumber (number : Int) : Date :=
  let cycle := number / 146097
  let inCycle := (number % 146097).toNat
  let century := min (inCycle / 36524) 3
  let inCentury := inCycle - 36524 * century
  let leapCycle := inCentury / 1461
  let inLeapCycle := inCentury % 1461
  let yearInCycle := min (inLeapCycle / 365) 3
  let day := inLeapCycle - 365 * yearInCycle
  ofYearDay (400 * cycle + 100 * century + 4 * leapCycle + yearInCycle + 1) day

/-- A date in the order year, month, day, with the year in at least four characters. -/
def render (separator : String) (d : Date) : String :=
  zeroPadded 4 d.year ++ separator ++ zeroPaddedNat 2 d.month ++ separator ++ zeroPaddedNat 2 d.day

end Date

end PatternSampler

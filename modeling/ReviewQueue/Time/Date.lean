/-!
# Dates

Days of the Gregorian calendar, extended to all years from -262143 to 262142. A `Date` is a real day by its type. The number
of a day counts from 1970-01-01.
-/

namespace ReviewQueue

namespace Date

/-- The first year a date may have. -/
def firstYear : Int := -262143

/-- The last year a date may have. -/
def lastYear : Int := 262142

/-- Every fourth year is a leap year, of the full centuries only every fourth one. -/
def isLeapYear (year : Int) : Bool := year % 4 = 0 && (year % 100 ≠ 0 || year % 400 = 0)

/-- The number of days of a month. -/
def daysOfMonth (year : Int) (month : Nat) : Nat :=
  if month = 2 then (if isLeapYear year then 29 else 28)
  else if month = 4 || month = 6 || month = 9 || month = 11 then 30
  else 31

/-- Whether year, month and day name a day of the calendar. -/
def isReal (year : Int) (month day : Nat) : Bool :=
  firstYear ≤ year && year ≤ lastYear && 1 ≤ month && month ≤ 12 && 1 ≤ day && day ≤ daysOfMonth year month

end Date

/-- A day of the calendar. -/
structure Date where
  year : Int
  month : Nat
  day : Nat
  real : Date.isReal year month day = true
  deriving DecidableEq, Repr

namespace Date

/-- The date of a year, month and day, if there is such a day. -/
def of? (year : Int) (month day : Nat) : Option Date :=
  if h : isReal year month day = true then some ⟨year, month, day, h⟩ else none

/-- The day after; none after the last day of the last year. -/
def next? (d : Date) : Option Date :=
  if d.day < daysOfMonth d.year d.month then of? d.year d.month (d.day + 1)
  else if d.month < 12 then of? d.year (d.month + 1) 1
  else of? (d.year + 1) 1 1

/-- The day before; none before the first day of the first year. -/
def previous? (d : Date) : Option Date :=
  if 1 < d.day then of? d.year d.month (d.day - 1)
  else if 1 < d.month then of? d.year (d.month - 1) (daysOfMonth d.year (d.month - 1))
  else of? (d.year - 1) 12 31

/-- The number of a day, 1970-01-01 being 0. A year is counted from March, so that the leap day is its last. -/
def number (d : Date) : Int :=
  let year := if d.month ≤ 2 then d.year - 1 else d.year
  let era := year / 400
  let yearOfEra := year - era * 400
  let monthFromMarch : Int := if d.month ≤ 2 then d.month + 9 else d.month - 3
  let dayOfYear := (153 * monthFromMarch + 2) / 5 + d.day - 1
  era * 146097 + (yearOfEra * 365 + yearOfEra / 4 - yearOfEra / 100 + dayOfYear) - 719468

/-- The date of a day number, if the calendar reaches it. -/
def ofNumber? (n : Int) : Option Date :=
  let shifted := n + 719468
  let era := shifted / 146097
  let dayOfEra := shifted - era * 146097
  let yearOfEra := (dayOfEra - dayOfEra / 1460 + dayOfEra / 36524 - dayOfEra / 146096) / 365
  let dayOfYear := dayOfEra - (365 * yearOfEra + yearOfEra / 4 - yearOfEra / 100)
  let monthFromMarch := (5 * dayOfYear + 2) / 153
  let day := dayOfYear - (153 * monthFromMarch + 2) / 5 + 1
  let month := if monthFromMarch < 10 then monthFromMarch + 3 else monthFromMarch - 9
  of? (yearOfEra + era * 400 + (if month ≤ 2 then 1 else 0)) month.toNat day.toNat

end Date
end ReviewQueue

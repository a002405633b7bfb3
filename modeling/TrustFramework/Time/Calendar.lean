/-!
# The calendar

Days are counted in the Gregorian calendar, carried back to the first of January
of the year one, which is day zero. Four hundred years have the same number of
days always, so a count of days is taken apart by cycles of four hundred, one
hundred, four and one year.

* `Date` — a year, a month and a day of the month.
* `Date.isValid` — whether a date is in the calendar and its year has four digits.
* `Date.toDays`, `Date.ofDays` — a date as a count of days, and back.
* `weekDate?` — the day of a week of a year.
-/

namespace TrustFramework
namespace Time

/-- A date: year, month and day of the month, from one. -/
structure Date where
  year : Nat
  month : Nat
  day : Nat
  deriving DecidableEq, Repr

/-- Whether a year has a twenty-ninth of February. -/
def isLeap (year : Nat) : Bool := year % 4 = 0 && (year % 100 ≠ 0 || year % 400 = 0)

/-- How many days a month has. -/
def daysInMonth (year month : Nat) : Nat :=
  match month with
  | 2 => if isLeap year then 29 else 28
  | 4 | 6 | 9 | 11 => 30
  | _ => 31

/-- The days before the first of January of a year. -/
def daysBeforeYear (year : Nat) : Nat :=
  let y := year - 1
  y * 365 + y / 4 - y / 100 + y / 400

/-- The days of a year before the first of a month. -/
def daysBeforeMonth (year : Nat) : Nat → Nat
  | 0 => 0
  | 1 => 0
  | month + 1 => daysBeforeMonth year month + daysInMonth year month

/-- The greatest year a date may have. -/
def maxYear : Nat := 9999

/-- The month and day of a count of days within a year, searched from a month on. -/
def monthFrom (year : Nat) : Nat → Nat → Nat → Nat × Nat
  | 0, month, days => (month, days + 1)
  | fuel + 1, month, days =>
    if days < daysInMonth year month then (month, days + 1)
    else monthFrom year fuel (month + 1) (days - daysInMonth year month)

/-- The day of the week of a count of days; the first day was a Monday. -/
def weekday (days : Nat) : Nat := days % 7

namespace Date

/-- Whether a date is in the calendar, in the years one to 9999. -/
def isValid (d : Date) : Bool :=
  1 ≤ d.year && d.year ≤ maxYear && 1 ≤ d.month && d.month ≤ 12 && 1 ≤ d.day &&
    d.day ≤ daysInMonth d.year d.month

/-- The days before a date. -/
def toDays (d : Date) : Nat :=
  daysBeforeYear d.year + daysBeforeMonth d.year d.month + (d.day - 1)

/-- The date after a count of days. -/
def ofDays (days : Nat) : Date :=
  let n400 := days / 146097
  let r400 := days % 146097
  let n100 := min (r400 / 36524) 3
  let r100 := r400 - n100 * 36524
  let n4 := r100 / 1461
  let r4 := r100 % 1461
  let n1 := min (r4 / 365) 3
  let r1 := r4 - n1 * 365
  let year := n400 * 400 + n100 * 100 + n4 * 4 + n1 + 1
  let (month, day) := monthFrom year 11 1 r1
  ⟨year, month, day⟩

end Date

/-- The first day of the first week of a year, the week of its fourth of January. -/
def firstWeek (year : Nat) : Int :=
  let first : Nat := daysBeforeYear year
  let start : Int := (first : Int) - weekday first
  if weekday first > 3 then start + 7 else start

/-- Whether a year has fifty-three weeks. -/
def isLongYear (year : Nat) : Bool :=
  let first := weekday (daysBeforeYear year)
  first = 3 || (first = 2 && isLeap year)

/-- The date of a day of a week of a year, all counted from one. -/
def weekDate? (year week day : Nat) : Option Date :=
  if 1 ≤ year ∧ year ≤ maxYear ∧ 1 ≤ week ∧ (week ≤ 52 ∨ week = 53 ∧ isLongYear year) ∧
      1 ≤ day ∧ day ≤ 7 then
    let days := firstWeek year + ((week - 1) * 7 + (day - 1) : Nat)
    if 0 ≤ days then some (Date.ofDays days.toNat) else none
  else none

end Time
end TrustFramework

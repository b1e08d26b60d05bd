/-!
# Dates

The proleptic Gregorian calendar: the rules of leap years hold for all years, past and future, and
the year before year one is year zero.

* `Date` — year, month and day; `Date.IsValid` — the dates that there are;
* `Date.dayNumber`, `Date.ofDayNumber` — dates as days since 1970-01-01;
* `weekday` — the day of the week of a day number.
-/

set_option autoImplicit false

namespace ControlBlocks.Calendar

/-- A date; months and days count from one. -/
structure Date where
  year : Int
  month : Nat
  day : Nat
  deriving DecidableEq, Repr

/-- Every fourth year is a leap year, of the hundredth years every fourth. -/
def isLeap (year : Int) : Bool := year % 4 = 0 && (year % 100 ≠ 0 || year % 400 = 0)

/-- The lengths of the months of a year. -/
def monthLengths (leap : Bool) : List Nat :=
  [31, if leap then 29 else 28, 31, 30, 31, 30, 31, 31, 30, 31, 30, 31]

/-- The number of days in a month; none where there is no such month. -/
def daysInMonth (year : Int) (month : Nat) : Nat :=
  if month = 0 then 0 else ((monthLengths (isLeap year))[month - 1]?).getD 0

/-- The date is in the calendar. -/
def Date.IsValid (d : Date) : Prop :=
  1 ≤ d.month ∧ d.month ≤ 12 ∧ 1 ≤ d.day ∧ d.day ≤ daysInMonth d.year d.month

instance (d : Date) : Decidable d.IsValid := by unfold Date.IsValid; infer_instance

/-- The days from 0001-01-01 to the first day of a year. -/
def daysBeforeYear (year : Int) : Int :=
  let y := year - 1
  365 * y + y / 4 - y / 100 + y / 400

/-- The days of a year before a month. -/
def daysBeforeMonth (leap : Bool) (month : Nat) : Nat :=
  ((monthLengths leap).take (month - 1)).foldl (· + ·) 0

/-- The days from 0001-01-01 to 1970-01-01. -/
def epoch : Int := daysBeforeYear 1970

/-- The days from 1970-01-01 to a date. -/
def Date.dayNumber (d : Date) : Int :=
  daysBeforeYear d.year + (daysBeforeMonth (isLeap d.year) d.month : Int) + (d.day : Int) - 1
    - epoch

/-- Month and day of the day `n` of a year, counted from zero; `month` is that of the first of the
remaining months. -/
def monthAndDay : (month : Nat) → (lengths : List Nat) → (n : Nat) → Nat × Nat
  | month, [], n => (month, n + 1)
  | month, length :: rest, n =>
    if n < length then (month, n + 1) else monthAndDay (month + 1) rest (n - length)

/-- The date that is `n` days after 1970-01-01.  Cycles of 400 years have the same length; within
one, centuries, groups of four years and years are counted off, the last of each being the one
that may be a day longer. -/
def Date.ofDayNumber (n : Int) : Date :=
  let n := n + epoch
  let cycle := n / 146097
  let n := (n % 146097).toNat
  let century := min (n / 36524) 3
  let n := n - century * 36524
  let group := n / 1461
  let n := n % 1461
  let one := min (n / 365) 3
  let year : Int := cycle * 400 + century * 100 + group * 4 + one + 1
  let (month, day) := monthAndDay 1 (monthLengths (isLeap year)) (n - one * 365)
  ⟨year, month, day⟩

/-- The day of the week of a day number, from Monday (1) to Sunday (7); day zero is a Thursday. -/
def weekday (n : Int) : Int := (n + 3) % 7 + 1

end ControlBlocks.Calendar

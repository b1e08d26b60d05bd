import ControlBlocks.Block.Basic
import ControlBlocks.Calendar.Date

/-!
# Calendar time

The clock taken apart into year, month, day, hour, minute and day of the week.

* `CalendarTime.Zero` — the calendar instant of time zero;
* `CalendarTime.instant?` — the nanosecond that a time stands for;
* `CalendarTime.reading` — its parts; `CalendarTime.block` — the block.
-/

set_option autoImplicit false

namespace ControlBlocks.CalendarTime

open Calendar

/-- The calendar instant that time zero stands for. -/
inductive Zero where
  /-- The beginning of 1970. -/
  | unix
  /-- The beginning of a year. -/
  | newYear (year : Int)
  deriving DecidableEq, Repr

section Data

variable {α : Type}

instance : ToDatum α Zero where
  toDatum
    | .unix => .text "UnixTimeStamp"
    | .newYear year => .record [("NewYear", .int year)]

/-- A year has 32 bits. -/
instance : OfDatum α Zero where
  ofDatum?
    | .text "UnixTimeStamp" => some .unix
    | .record [("UnixTimeStamp", .null)] => some .unix
    | .record [("NewYear", .int year)] =>
      if -0x80000000 ≤ year ∧ year < 0x80000000 then some (.newYear year) else none
    | _ => none

/-- The parts of a calendar time. -/
structure Reading (α : Type) where
  year : Int
  month : Int
  day : Int
  hour : Int
  /-- The minute of the hour, with its fraction. -/
  minute : α
  /-- From Monday (1) to Sunday (7). -/
  weekday : Int
  deriving DecidableEq, Repr

instance : ToDatum α (Reading α) where
  toDatum r := .record [("year", toDatum r.year), ("month", toDatum r.month),
    ("day", toDatum r.day), ("hour", toDatum r.hour), ("minute", toDatum r.minute),
    ("week_day", toDatum r.weekday)]

end Data

/-- The day number of time zero; years from 2010 to 2031 may be named. -/
def Zero.dayNumber? : Zero → Option Int
  | .unix => some 0
  | .newYear year =>
    if 2010 ≤ year ∧ year ≤ 2031 then some (Date.dayNumber ⟨year, 1, 1⟩) else none

/-- The first and the last year of the calendar. -/
def years : Int × Int := (-262143, 262142)

variable {α : Type} [Scalar α]

/-- A number of seconds as nanoseconds, the fraction of a second rounded to the nearest one; `none`
unless it is finite. -/
def nanoseconds? (seconds : α) : Option Int := do
  let whole := Scalar.floor seconds
  let fraction := Scalar.nearest ((seconds - whole) * 1e9)
  return (← Scalar.wholePart? whole) * 1000000000 + (← Scalar.wholePart? fraction)

/-- The nanoseconds of a day. -/
def nanosecondsInDay : Int := 86400 * 1000000000

/-- The parts of an instant, `day` days and `nanos` nanoseconds after 1970-01-01. -/
def reading (day nanos : Int) : Reading α :=
  let date := Date.ofDayNumber day
  let seconds := nanos / 1000000000
  { year := date.year
    month := date.month
    day := date.day
    hour := seconds / 3600
    minute := ((seconds / 60 % 60 : Int) : α) + ((seconds % 60 : Int) : α) / 60.0
      + ((nanos % 1000000000 : Int) : α) / 60e9
    weekday := weekday day }

/-- The instant a number of seconds after day `zero`; `none` outside the calendar. -/
def readingAt? (zero : Int) (seconds : α) : Option (Reading α) := do
  let nanos := zero * nanosecondsInDay + (← nanoseconds? seconds)
  let r : Reading α := reading (nanos / nanosecondsInDay) (nanos % nanosecondsInDay)
  if years.1 ≤ r.year ∧ r.year ≤ years.2 then some r else none

/-- The calendar time, `offset` seconds from the clock; time zero is the beginning of `zero`. -/
def block (zero : Zero) (offset : α) : Except (Fault α) (Block α Unit Unit (Reading α)) :=
  match zero.dayNumber? with
  | none => .error (.configuration "CalendarTime" "zero time year must be between 2010 and 2031")
  | some day =>
    if Scalar.isFinite offset then
      .ok (.source "CalendarTime" fun t =>
        match readingAt? day (t + offset) with
        | some r => .ok r
        | none => .error (.domain "CalendarTime" "time outside the calendar range" (t + offset)))
    else .error (.configuration "CalendarTime" "offset must be finite")

end ControlBlocks.CalendarTime

import ControlBlocks.Calendar.Date

/-!
# Time stamps

Date, time of day and offset from universal time in one text, as `2024-01-02T03:04:05Z`, in a
relaxed form: blanks may stand between the parts, a blank or a small `t` between date and time, and
the offset may be `Z`, `UTC` or hours and minutes.

* `Timestamp.parse?` — the second that a text names, since 1970-01-01 in universal time.
-/

set_option autoImplicit false

namespace ControlBlocks.Calendar.Timestamp

/-- The white space of Unicode. -/
def isSpace (c : Char) : Bool :=
  let n := c.toNat
  (9 ≤ n && n ≤ 13) || n = 0x20 || n = 0x85 || n = 0xA0 || n = 0x1680 ||
    (0x2000 ≤ n && n ≤ 0x200A) || n = 0x2028 || n = 0x2029 || n = 0x202F || n = 0x205F ||
    n = 0x3000

/-- The text after its leading white space. -/
def skipSpace (cs : List Char) : List Char := cs.dropWhile isSpace

/-- The value of the digits at the start of a text, at least one; `most` limits their number. -/
def digits (most : Option Nat) (cs : List Char) : Option (Nat × List Char) :=
  let all := cs.takeWhile Char.isDigit
  let ds := match most with
    | some n => all.take n
    | none => all
  if ds.isEmpty then none else some (Nat.ofDigitChars 10 ds 0, cs.drop ds.length)

/-- A number of at most two digits from `low` to `high`, after white space. -/
def field (low high : Nat) (cs : List Char) : Option (Nat × List Char) := do
  let (n, rest) ← digits (some 2) (skipSpace cs)
  if low ≤ n ∧ n ≤ high then some (n, rest) else none

/-- A year: four digits at most, or any number of them after a sign. -/
def year (cs : List Char) : Option (Int × List Char) :=
  match skipSpace cs with
  | '-' :: rest => (digits none rest).map fun (n, rest) => (-(n : Int), rest)
  | '+' :: rest => (digits none rest).map fun (n, rest) => ((n : Int), rest)
  | cs => (digits (some 4) cs).map fun (n, rest) => ((n : Int), rest)

/-- The rest of a text after white space and one character. -/
def mark (c : Char) (cs : List Char) : Option (List Char) :=
  match skipSpace cs with
  | d :: rest => if d = c then some rest else none
  | [] => none

/-- The rest of a text after the fraction of a second, if there is one: a point and digits. -/
def skipFraction : List Char → Option (List Char)
  | '.' :: rest => (digits none rest).map (·.2)
  | cs => some cs

/-- Two digits of an offset, the first at most `tens`. -/
def offsetPart (tens : Nat) : List Char → Option (Nat × List Char)
  | a :: b :: rest =>
    if a.isDigit ∧ b.isDigit ∧ a.toNat - '0'.toNat ≤ tens then
      some (Nat.ofDigitChars 10 [a, b] 0, rest)
    else none
  | _ => none

/-- An offset in seconds: hours and minutes, which colons and white space may separate. -/
def signedOffset (sign : Int) (cs : List Char) : Option (Int × List Char) := do
  let (hours, cs) ← offsetPart 9 cs
  let (minutes, cs) ← offsetPart 5 (cs.dropWhile fun c => c = ':' || isSpace c)
  return (sign * ((hours * 3600 + minutes * 60 : Nat) : Int), cs)

/-- The offset from universal time, in seconds. -/
def offset (cs : List Char) : Option (Int × List Char) :=
  if (cs.take 3).map Char.toUpper = ['U', 'T', 'C'] then some (0, cs.drop 3)
  else
    match cs with
    | 'Z' :: rest | 'z' :: rest => some (0, rest)
    | '+' :: rest => signedOffset 1 rest
    | '-' :: rest | '−' :: rest => signedOffset (-1) rest
    | _ => none

/-- A date of the calendar between the years -262143 and 262142. -/
def date (cs : List Char) : Option (Date × List Char) := do
  let (y, cs) ← year cs
  let (m, cs) ← field 1 12 (← mark '-' cs)
  let (d, cs) ← field 1 31 (← mark '-' cs)
  let date : Date := ⟨y, m, d⟩
  if date.IsValid ∧ -262143 ≤ y ∧ y ≤ 262142 then some (date, cs) else none

/-- A time of day in seconds; a leap second counts as the one before it. -/
def timeOfDay (cs : List Char) : Option (Nat × List Char) := do
  let (h, cs) ← field 0 23 cs
  let (m, cs) ← field 0 59 (← mark ':' cs)
  let (s, cs) ← field 0 60 (← mark ':' cs)
  return (h * 3600 + m * 60 + min s 59, ← skipFraction cs)

/-- What separates date and time. -/
def skipSeparator : List Char → Option (List Char)
  | c :: rest => if c = 't' || c = 'T' || c = ' ' then some rest else none
  | [] => none

/-- The second that a time stamp names, counted from 1970-01-01 in universal time.  The offset is
less than a day, and the instant lies within the calendar. -/
def parse? (s : String) : Option Int := do
  let (date, cs) ← date s.toList
  let (seconds, cs) ← timeOfDay (← skipSeparator cs)
  let (offset, cs) ← offset (skipSpace cs)
  let total := date.dayNumber * 86400 + (seconds : Int) - offset
  let utc := Date.ofDayNumber (total / 86400)
  if (skipSpace cs).isEmpty ∧ -86400 < offset ∧ offset < 86400 ∧ -262143 ≤ utc.year ∧
      utc.year ≤ 262142 then
    some total
  else none

end ControlBlocks.Calendar.Timestamp

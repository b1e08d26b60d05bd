import ControlBlocks.Source.CalendarTime
import ControlBlocks.Proofs.Binary64.Whole
import ControlBlocks.Proofs.Calendar.Dates
import ControlBlocks.Proofs.Calls.Basic
import Mathlib

/-!
# Readings of the calendar time

In binary floating point, what the calendar time names can be counted back to the nanosecond.

* `nanoseconds?_of_isFinite` — how far the nanoseconds of a float are from its value;
* `value_minutes` — how far a minute with its fraction is from its nanoseconds;
* `Reading.Names`, `Reading.Before` — what a reading should be, and the order of readings;
* `names_reading`, `reading_before` — readings of days and of nanoseconds of a day;
* `inCalendar_iff` — the instants of the years of the calendar;
* `readings_invert_counting` — the block on all times.
-/

set_option autoImplicit false

namespace ControlBlocks.CalendarTime

open Binary64 (IsFinite IsRounding RoundsTo value valueOf)
open Calendar

/-! ## Seconds as nanoseconds -/

section Seconds

variable {s : Float}

theorem value_nanosecondsInSecond : IsFinite (valueOf 1e9) ∧ value 1e9 = 1000000000 := by
  have billion : valueOf 1e9 = .finite .positive (1000000000 * 2 ^ 23) (-23) (by decide) := by rfl
  obtain ⟨finite, exact⟩ := Binary64.value_of_positive billion
  exact ⟨finite, exact.trans (by norm_num)⟩

/-- Nanoseconds of a fraction of a second, before they are rounded. -/
theorem value_fraction (hs : IsFinite (valueOf s)) :
    IsFinite (valueOf ((s - Binary64.floor s) * 1e9)) ∧
      0 ≤ value ((s - Binary64.floor s) * 1e9) ∧
      value ((s - Binary64.floor s) * 1e9) ≤ 1000000000 ∧
      |value ((s - Binary64.floor s) * 1e9) - 1000000000 * Int.fract (value s)| ≤ 1 / 2 ^ 22 := by
  obtain ⟨finite, whole⟩ := Binary64.value_floor hs
  obtain ⟨finite', billion⟩ := value_nanosecondsInSecond
  have nonneg := Int.fract_nonneg (value s)
  have small := (Int.fract_lt_one (value s)).le
  -- the fraction is off by at most `2 ^ (-53)`, its product by at most `2 ^ (-23)`
  have fraction : IsRounding (Int.fract (value s)) (s - Binary64.floor s) := by
    have := Binary64.isRounding_sub hs finite
    rw [whole, Int.self_sub_floor] at this
    exact this (by rw [abs_of_nonneg nonneg]; exact small.trans (by norm_num))
  have low : 0 ≤ value (s - Binary64.floor s) := by
    exact_mod_cast fraction.le_value (p := 0) (by decide) (by exact_mod_cast nonneg)
  have high : value (s - Binary64.floor s) ≤ 1 := by
    exact_mod_cast fraction.value_le (p := 1) (by decide) (by exact_mod_cast small)
  have close := abs_le.1 (fraction.abs_sub_le (j := -53) (by decide) (by
    rw [abs_of_nonneg nonneg]
    exact small.trans (by norm_num)))
  have atMost : value (s - Binary64.floor s) * 1000000000 ≤ 1000000000 := by linarith
  have product : IsRounding (value (s - Binary64.floor s) * 1000000000)
      ((s - Binary64.floor s) * 1e9) := by
    have := Binary64.isRounding_mul fraction.finite finite'
    rw [billion] at this
    exact this (by rw [abs_of_nonneg (by positivity)]; exact atMost.trans (by norm_num))
  have close' := abs_le.1 (product.abs_sub_le (j := -23) (by decide) (by
    rw [abs_of_nonneg (by positivity)]
    exact atMost.trans (by norm_num)))
  refine ⟨product.finite, ?_, ?_, ?_⟩
  · exact_mod_cast product.le_value (p := 0) (by decide) (by push_cast; positivity)
  · exact_mod_cast product.value_le (p := 1000000000) (by decide) (by push_cast; linarith)
  · norm_num at close close' ⊢
    rw [abs_le]
    constructor <;> linarith

/-- The nanoseconds of a float are those of its value, rounded; the fraction was rounded before. -/
theorem nanoseconds?_of_isFinite (hs : IsFinite (valueOf s)) :
    ∃ S, nanoseconds? s = some S ∧ |(S : ℚ) - 1000000000 * value s| ≤ 1 / 2 + 1 / 2 ^ 22 := by
  obtain ⟨finite, whole⟩ := Binary64.value_floor hs
  obtain ⟨finite', low, high, close⟩ := value_fraction hs
  obtain ⟨finite'', nearest⟩ :=
    Binary64.value_nearest finite' low (high.trans (by norm_num))
  refine ⟨⌊value s⌋ * 1000000000 + round (value ((s - Binary64.floor s) * 1e9)), ?_, ?_⟩
  · have wholePart := Binary64.wholePart?_eq_some finite whole
    have wholePart' := Binary64.wholePart?_eq_some finite'' nearest
    show (do
      return (← Binary64.wholePart? (Binary64.floor s)) * 1000000000 +
        (← Binary64.wholePart? (Scalar.nearest ((s - Binary64.floor s) * 1e9)))) = _
    rw [wholePart, wholePart']
    rfl
  · have rounded := abs_le.1 (abs_sub_round (value ((s - Binary64.floor s) * 1e9)))
    have close := abs_le.1 close
    have split := Int.floor_add_fract (value s)
    push_cast
    rw [abs_le]
    constructor <;> linarith

theorem nanoseconds?_eq_none (hs : ¬ IsFinite (valueOf s)) : nanoseconds? s = none := by
  show (do
    return (← Binary64.wholePart? (Binary64.floor s)) * 1000000000 +
      (← Binary64.wholePart? (Scalar.nearest ((s - Binary64.floor s) * 1e9)))) = _
  rw [Binary64.wholePart?_floor_eq_none hs]
  rfl

end Seconds

/-! ## Minutes with their fraction -/

section Minute

variable {m s n : ℤ}

/-- Whole minutes, seconds and nanoseconds as minutes. -/
def minutes (m s n : ℤ) : Float := Float.ofInt m + Float.ofInt s / 60.0 + Float.ofInt n / 60e9

theorem value_sixty : IsFinite (valueOf 60.0) ∧ value 60.0 = 60 := by
  have sixty : valueOf 60.0 = .finite .positive (60 * 2 ^ 47) (-47) (by decide) := by rfl
  obtain ⟨finite, exact⟩ := Binary64.value_of_positive sixty
  exact ⟨finite, exact.trans (by norm_num)⟩

theorem value_nanosecondsInMinute : IsFinite (valueOf 60e9) ∧ value 60e9 = 60000000000 := by
  have here : valueOf 60e9 = .finite .positive (60000000000 * 2 ^ 17) (-17) (by decide) := by rfl
  obtain ⟨finite, exact⟩ := Binary64.value_of_positive here
  exact ⟨finite, exact.trans (by norm_num)⟩

/-- A quotient of integers that is at most one. -/
theorem value_quotient {x : Float} {p q : ℤ} (hx : IsFinite (valueOf x) ∧ value x = q)
    (hp : 0 ≤ p) (hpq : p < q) (hq : q < 2 ^ 53) :
    IsFinite (valueOf (Float.ofInt p / x)) ∧ 0 ≤ value (Float.ofInt p / x) ∧
      value (Float.ofInt p / x) ≤ 1 ∧ |value (Float.ofInt p / x) - p / q| ≤ 1 / 2 ^ 53 := by
  obtain ⟨finite, exact⟩ := Binary64.value_ofInt hp (hpq.trans hq)
  have divisor : (0 : ℚ) < q := by exact_mod_cast hp.trans_lt hpq
  have nonneg : (0 : ℚ) ≤ p / q := div_nonneg (by exact_mod_cast hp) divisor.le
  have small : (p : ℚ) / q ≤ 1 := (div_le_one divisor).2 (by exact_mod_cast hpq.le)
  have quotient : IsRounding (p / q) (Float.ofInt p / x) := by
    have := Binary64.isRounding_div finite hx.1
    rw [exact, hx.2] at this
    exact this divisor.ne' (by rw [abs_of_nonneg nonneg]; exact small.trans (by norm_num))
  refine ⟨quotient.finite, ?_, ?_, ?_⟩
  · exact_mod_cast quotient.le_value (p := 0) (by decide) (by exact_mod_cast nonneg)
  · exact_mod_cast quotient.value_le (p := 1) (by decide) (by exact_mod_cast small)
  · refine (quotient.abs_sub_le (j := -53) (by decide) ?_).trans (by norm_num)
    rw [abs_of_nonneg nonneg]
    exact small.trans (by norm_num)

/-- A sum of up to 64 minutes. -/
theorem value_sum {x y : Float} (hx : IsFinite (valueOf x)) (hy : IsFinite (valueOf y))
    (hx' : 0 ≤ value x) (hy' : 0 ≤ value y) (h : value x + value y ≤ 64) :
    IsFinite (valueOf (x + y)) ∧ 0 ≤ value (x + y) ∧
      |value (x + y) - (value x + value y)| ≤ 1 / 2 ^ 47 := by
  have nonneg : 0 ≤ value x + value y := add_nonneg hx' hy'
  have sum := Binary64.isRounding_add hx hy
    (by rw [abs_of_nonneg nonneg]; exact h.trans (by norm_num))
  refine ⟨sum.finite, ?_, ?_⟩
  · exact_mod_cast sum.le_value (p := 0) (by decide) (by exact_mod_cast nonneg)
  · refine (sum.abs_sub_le (j := -47) (by decide) ?_).trans (by norm_num)
    rw [abs_of_nonneg nonneg]
    exact h.trans (by norm_num)

/-- Minutes with their fraction are off by much less than half a nanosecond. -/
theorem value_minutes (hm : 0 ≤ m) (hm' : m < 60) (hs : 0 ≤ s) (hs' : s < 60) (hn : 0 ≤ n)
    (hn' : n < 1000000000) :
    IsFinite (valueOf (minutes m s n)) ∧ 0 ≤ value (minutes m s n) ∧
      |value (minutes m s n) * 60000000000 -
        (m * 60000000000 + s * 1000000000 + n : ℤ)| < 1 / 2 := by
  obtain ⟨finite, whole⟩ := Binary64.value_ofInt hm (hm'.trans (by decide))
  obtain ⟨finite', low, high, close⟩ := value_quotient value_sixty hs hs' (by decide)
  obtain ⟨finite'', low', high', close'⟩ :=
    value_quotient value_nanosecondsInMinute hn (hn'.trans (by decide)) (by decide)
  have nonneg : (0 : ℚ) ≤ m := by exact_mod_cast hm
  have short : (m : ℚ) ≤ 60 := by exact_mod_cast hm'.le
  obtain ⟨finite, low, sum⟩ :=
    value_sum finite finite' (whole.symm ▸ nonneg) low (by rw [whole]; linarith)
  rw [whole, abs_le] at sum
  obtain ⟨finite, low, sum'⟩ := value_sum finite finite'' low low'
    (by norm_num at sum ⊢; linarith)
  refine ⟨finite, low, ?_⟩
  rw [abs_le] at close close' sum'
  rw [abs_lt]
  unfold minutes
  push_cast at close close' ⊢
  norm_num at close close' sum sum' ⊢
  constructor <;> linarith

/-- The minute of a reading, in nanoseconds, is nearest to those of its hour. -/
theorem value_minute (day nanos : ℤ) :
    IsFinite (valueOf (reading day nanos : Reading Float).minute) ∧
      0 ≤ value (reading day nanos : Reading Float).minute ∧
      |value (reading day nanos : Reading Float).minute * 60000000000 -
        (nanos % 3600000000000 : ℤ)| < 1 / 2 := by
  have split : nanos % 3600000000000 = nanos / 1000000000 / 60 % 60 * 60000000000 +
      nanos / 1000000000 % 60 * 1000000000 + nanos % 1000000000 := by omega
  rw [split]
  exact value_minutes (by omega) (by omega) (by omega) (by omega) (by omega) (by omega)

end Minute

/-! ## Instants and their readings -/

/-- The date of a reading. -/
def Reading.date (r : Reading Float) : Date := ⟨r.year, r.month.toNat, r.day.toNat⟩

/-- The nanoseconds from the beginning of day `zero` to what a reading names, to the nearest one. -/
def Reading.nanoseconds (zero : ℤ) (r : Reading Float) : ℤ :=
  (r.date.dayNumber - zero) * nanosecondsInDay + r.hour * 3600000000000 +
    round (value r.minute * 60000000000)

/-- The reading is earlier: in the first of year, month, day, hour and minute that differ. -/
def Reading.Before (r r' : Reading Float) : Prop :=
  r.year < r'.year ∨ r.year = r'.year ∧ (r.month < r'.month ∨ r.month = r'.month ∧
    (r.day < r'.day ∨ r.day = r'.day ∧ (r.hour < r'.hour ∨ r.hour = r'.hour ∧
      r.minute < r'.minute)))

/-- The reading names the instant `S` nanoseconds after the beginning of day `zero`, in the parts
that it should have. -/
structure Reading.Names (zero S : ℤ) (r : Reading Float) : Prop where
  date : r.date.IsValid
  hour : 0 ≤ r.hour ∧ r.hour ≤ 23
  minute : 0.0 ≤ r.minute ∧ r.minute < 60.0
  /-- Day zero is a Thursday. -/
  weekday : 1 ≤ r.weekday ∧ r.weekday ≤ 7 ∧ r.weekday ≡ 4 + r.date.dayNumber [ZMOD 7]
  nanoseconds : r.nanoseconds zero = S

/-- The reading `S` nanoseconds after the beginning of day `zero`. -/
def after (zero S : ℤ) : Reading Float :=
  reading ((zero * nanosecondsInDay + S) / nanosecondsInDay)
    ((zero * nanosecondsInDay + S) % nanosecondsInDay)

/-- The instant is in the years of the calendar. -/
def InCalendar (zero S : ℤ) : Prop :=
  Date.dayNumber ⟨years.1, 1, 1⟩ * nanosecondsInDay ≤ zero * nanosecondsInDay + S ∧
    zero * nanosecondsInDay + S < Date.dayNumber ⟨years.2 + 1, 1, 1⟩ * nanosecondsInDay

instance (zero S : ℤ) : Decidable (InCalendar zero S) := by unfold InCalendar; infer_instance

section Instants

variable {zero day day' nanos nanos' S S' : ℤ}

theorem nanosecondsInDay_eq : nanosecondsInDay = 86400000000000 := rfl

theorem date_reading (day nanos : ℤ) :
    (reading day nanos : Reading Float).date = Date.ofDayNumber day := rfl

theorem hour_reading (day nanos : ℤ) :
    (reading day nanos : Reading Float).hour = nanos / 1000000000 / 3600 := rfl

theorem weekday_reading (day nanos : ℤ) :
    (reading day nanos : Reading Float).weekday = (day + 3) % 7 + 1 := rfl

/-- A reading names the day and the nanosecond of the day that it was made from. -/
theorem names_reading (zero day : ℤ) (h : 0 ≤ nanos) (h' : nanos < nanosecondsInDay) :
    (reading day nanos).Names zero ((day - zero) * nanosecondsInDay + nanos) := by
  obtain ⟨finite, nonneg, near⟩ := value_minute day nanos
  obtain ⟨low, high⟩ := abs_lt.1 near
  rw [nanosecondsInDay_eq] at h'
  refine ⟨Date.isValid_ofDayNumber day, ?_, ?_, ?_, ?_⟩
  · rw [hour_reading]
    omega
  · have whole : nanos % 3600000000000 + 1 ≤ 3600000000000 := by omega
    have whole : ((nanos % 3600000000000 : ℤ) : ℚ) + 1 ≤ 3600000000000 := by exact_mod_cast whole
    rw [Binary64.le_iff_value_le (show IsFinite (valueOf 0.0) from trivial) finite,
      Binary64.lt_iff_value_lt finite value_sixty.1, Binary64.value_zero, value_sixty.2]
    exact ⟨nonneg, by linarith⟩
  · rw [date_reading, Date.dayNumber_ofDayNumber, weekday_reading, Int.ModEq]
    omega
  · have nearest : round (value (reading day nanos : Reading Float).minute * 60000000000) =
        nanos % 3600000000000 := by
      rw [round_eq, Int.floor_eq_iff]
      constructor <;> linarith
    rw [Reading.nanoseconds, date_reading, Date.dayNumber_ofDayNumber, hour_reading, nearest]
    omega

/-- Later readings, on a later day or later on the same day. -/
theorem reading_before (h : day < day' ∨ day = day' ∧ nanos < nanos') :
    (reading day nanos).Before (reading day' nanos') := by
  obtain later | ⟨rfl, later⟩ := h
  · obtain year | ⟨year, month | ⟨month, day⟩⟩ := Date.ofDayNumber_before later
    · exact .inl year
    · exact .inr ⟨year, .inl (Int.ofNat_lt.2 month)⟩
    · exact .inr ⟨year, .inr ⟨congrArg Nat.cast month, .inl (Int.ofNat_lt.2 day)⟩⟩
  · refine .inr ⟨rfl, .inr ⟨rfl, .inr ⟨rfl, ?_⟩⟩⟩
    rw [hour_reading, hour_reading]
    rcases lt_or_ge (nanos / 1000000000 / 3600) (nanos' / 1000000000 / 3600) with hour | hour
    · exact .inl hour
    · obtain ⟨finite, -, near⟩ := value_minute day nanos
      obtain ⟨finite', -, near'⟩ := value_minute day nanos'
      have inHour : nanos % 3600000000000 + 1 ≤ nanos' % 3600000000000 := by omega
      have inHour : ((nanos % 3600000000000 : ℤ) : ℚ) + 1 ≤ (nanos' % 3600000000000 : ℤ) := by
        exact_mod_cast inHour
      refine .inr ⟨by omega, (Binary64.lt_iff_value_lt finite finite').2 ?_⟩
      rw [abs_lt] at near near'
      linarith

theorem names_after (zero S : ℤ) : (after zero S).Names zero S := by
  have positive : 0 < nanosecondsInDay := by decide
  obtain ⟨instant, hinstant⟩ : ∃ i, zero * nanosecondsInDay + S = i := ⟨_, rfl⟩
  have split : (instant / nanosecondsInDay - zero) * nanosecondsInDay +
      instant % nanosecondsInDay = S := by
    have := Int.ediv_mul_add_emod instant nanosecondsInDay
    rw [sub_mul]
    omega
  have names := names_reading zero (instant / nanosecondsInDay)
    (Int.emod_nonneg instant positive.ne') (Int.emod_lt_of_pos instant positive)
  rw [split] at names
  rw [after, hinstant]
  exact names

theorem after_before (zero : ℤ) (h : S < S') : (after zero S).Before (after zero S') := by
  apply reading_before
  rw [nanosecondsInDay_eq]
  omega

/-- Where the years of the calendar begin and end. -/
theorem inCalendar_iff :
    InCalendar zero S ↔ years.1 ≤ (after zero S).year ∧ (after zero S).year ≤ years.2 := by
  have positive : 0 < nanosecondsInDay := by decide
  have first (year : ℤ) : year ≤ (after zero S).year ↔
      Date.dayNumber ⟨year, 1, 1⟩ * nanosecondsInDay ≤ zero * nanosecondsInDay + S := by
    rw [← Int.le_ediv_iff_mul_le positive]
    exact Date.le_year_ofDayNumber_iff year _
  have last : (after zero S).year ≤ years.2 ↔ ¬ years.2 + 1 ≤ (after zero S).year := by omega
  rw [InCalendar, last, first, first, not_le]

end Instants

/-! ## The block -/

section Block

variable {zero : Zero} {year day S : ℤ} {offset t : Float}

/-- Time zero is the beginning of a year. -/
def Zero.Begins (zero : Zero) (year : ℤ) : Prop :=
  zero = .unix ∧ year = 1970 ∨ zero = .newYear year ∧ 2010 ≤ year ∧ year ≤ 2031

theorem Zero.Begins.dayNumber?_eq (h : zero.Begins year) :
    zero.dayNumber? = some (Date.dayNumber ⟨year, 1, 1⟩) := by
  obtain ⟨rfl, rfl⟩ | ⟨rfl, range⟩ := h
  · rfl
  · exact if_pos range

theorem readingAt?_of_inCalendar (h : nanoseconds? t = some S) (hS : InCalendar day S) :
    readingAt? day t = some (after day S) := by
  rw [inCalendar_iff] at hS
  rw [readingAt?, h]
  exact if_pos hS

theorem readingAt?_of_not_inCalendar (h : nanoseconds? t = some S) (hS : ¬ InCalendar day S) :
    readingAt? day t = none := by
  rw [inCalendar_iff] at hS
  rw [readingAt?, h]
  exact if_neg hS

theorem readingAt?_eq_none (day : ℤ) (h : nanoseconds? t = none) : readingAt? day t = none := by
  rw [readingAt?, h]
  rfl

/-- The block gives the readings that there are, and fails without one. -/
theorem exists_block_eq (h : zero.dayNumber? = some day) (h' : Scalar.isFinite offset = true) :
    ∃ b : Block Float Unit Unit (Reading Float), block zero offset = .ok b ∧
      (∀ t r, readingAt? day (t + offset) = some r → b.call ⟨t, ()⟩ () = .ok (r, ())) ∧
      ∀ t, readingAt? day (t + offset) = none → b.call ⟨t, ()⟩ () =
        .error (.domain "CalendarTime" "time outside the calendar range" (t + offset)) := by
  refine ⟨_, by rw [block, h]; exact if_pos h', fun t r hr => ?_, fun t hr => ?_⟩
  · simp only [Block.call, Block.source, hr]
    rfl
  · simp only [Block.call, Block.source, hr]
    rfl

/-- **Calendar time is the inverse of counting nanoseconds.**  On any time zero that may be named
and any finite offset, the seconds since time zero are the sum of time and offset, rounded to a
float.  Where that is finite, it is taken to nanoseconds, by rounding its fraction.  Within the
years of the calendar the output depends on the nanoseconds alone; it is a date of the calendar and
a time of day from which the nanoseconds can be told again, with the day of the week; and it
increases with them.  Everywhere else the block fails. -/
theorem readings_invert_counting (hzero : zero.Begins year) (hoffset : IsFinite (valueOf offset)) :
    ∃ (b : Block Float Unit Unit (Reading Float)) (day : ℤ) (readings : ℤ → Reading Float),
      block zero offset = .ok b ∧ day = Date.dayNumber ⟨year, 1, 1⟩ ∧
      (∀ t, IsFinite (valueOf (t + offset)) →
        IsRounding (value t + value offset) (t + offset) ∧
        ∃ S, nanoseconds? (t + offset) = some S ∧
          |(S : ℚ) - 1000000000 * value (t + offset)| ≤ 1 / 2 + 1 / 2 ^ 22 ∧
          (InCalendar day S → b.call ⟨t, ()⟩ () = .ok (readings S, ())) ∧
          (¬ InCalendar day S → b.call ⟨t, ()⟩ () =
            .error (.domain "CalendarTime" "time outside the calendar range" (t + offset)))) ∧
      (∀ t, ¬ IsFinite (valueOf (t + offset)) → b.call ⟨t, ()⟩ () =
        .error (.domain "CalendarTime" "time outside the calendar range" (t + offset))) ∧
      (∀ S, (readings S).Names day S) ∧
      ∀ S S', S < S' → (readings S).Before (readings S') := by
  have built := hzero.dayNumber?_eq
  obtain ⟨day, hday⟩ : ∃ day, Date.dayNumber ⟨year, 1, 1⟩ = day := ⟨_, rfl⟩
  rw [hday] at built
  obtain ⟨b, accepted, succeeds, fails⟩ :=
    exists_block_eq built ((Binary64.isFinite_iff offset).2 hoffset)
  refine ⟨b, day, after day, accepted, hday.symm, ?_, ?_, names_after day,
    fun _ _ => after_before day⟩
  · intro t finite
    have time : IsFinite (valueOf t) := by
      by_contra h
      obtain ⟨side, runaway⟩ := Binary64.exists_runaway h
      exact (runaway.add offset).not_isFinite finite
    have sum := Binary64.isRounding_add_of_isFinite time hoffset finite
    obtain ⟨S, hS, near⟩ := nanoseconds?_of_isFinite finite
    exact ⟨sum, S, hS, near, fun inside => succeeds t _ (readingAt?_of_inCalendar hS inside),
      fun outside => fails t (readingAt?_of_not_inCalendar hS outside)⟩
  · intro t infinite
    exact fails t (readingAt?_eq_none day (nanoseconds?_eq_none infinite))

/-- On the leap day of 2016, at half past thirteen and half a minute. -/
theorem readings_invert_counting_leap_day :
    ∃ (b : Block Float Unit Unit (Reading Float)) (r : Reading Float),
      block (.newYear 2016) 0.0 = .ok b ∧ b.call ⟨5146230.0, ()⟩ () = .ok (r, ()) ∧
      r = ⟨2016, 2, 29, 13, 30.5, 1⟩ ∧
      r.Names (Date.dayNumber ⟨2016, 1, 1⟩) 5146230000000000 := by
  obtain ⟨b, day, readings, accepted, rfl, finite, -, names, -⟩ :=
    readings_invert_counting (.inr ⟨rfl, by decide, by decide⟩ : (Zero.newYear 2016).Begins 2016)
      (show IsFinite (valueOf 0.0) from trivial)
  obtain ⟨-, S, hS, -, inside, -⟩ := finite 5146230.0 trivial
  obtain rfl : 5146230000000000 = S := Option.some.inj (hS.symm.trans (by decide +kernel)).symm
  obtain ⟨b', accepted', succeeds, -⟩ := exists_block_eq
    (rfl : (Zero.newYear 2016).dayNumber? = some (Date.dayNumber ⟨2016, 1, 1⟩))
    (show Scalar.isFinite (0.0 : Float) = true by decide +kernel)
  cases Except.ok.inj (accepted.symm.trans accepted')
  have called := inside (by decide)
  have computed := succeeds 5146230.0 ⟨2016, 2, 29, 13, 30.5, 1⟩ (by decide +kernel)
  refine ⟨b, _, accepted, called, ?_, names _⟩
  exact (Prod.mk.inj (Except.ok.inj (called.symm.trans computed))).1

theorem exists_reading_eq (hoffset : Scalar.isFinite offset = true)
    (hS : nanoseconds? (t + offset) = some S) (inside : InCalendar 0 S) :
    ∃ (b : Block Float Unit Unit (Reading Float)) (r : Reading Float),
      block .unix offset = .ok b ∧ b.call ⟨t, ()⟩ () = .ok (r, ()) ∧ r.nanoseconds 0 = S := by
  obtain ⟨b, accepted, succeeds, -⟩ :=
    exists_block_eq (rfl : Zero.unix.dayNumber? = some 0) hoffset
  exact ⟨b, after 0 S, accepted, succeeds _ _ (readingAt?_of_inCalendar hS inside),
    (names_after 0 S).nanoseconds⟩

/-- What a reading names need not be the exact sum of time and offset to the nanosecond: the sum may
be no float, and without an offset, rounding the fraction once more may carry it over a half. -/
theorem exists_reading_off :
    (∃ (b : Block Float Unit Unit (Reading Float)) (r : Reading Float),
      block .unix 0.1 = .ok b ∧ b.call ⟨1e9, ()⟩ () = .ok (r, ()) ∧
      r.nanoseconds 0 ≠ round (1000000000 * (value 1e9 + value 0.1))) ∧
    ∃ (b : Block Float Unit Unit (Reading Float)) (r : Reading Float),
      block .unix 0.0 = .ok b ∧ b.call ⟨1.5e-9, ()⟩ () = .ok (r, ()) ∧
      r.nanoseconds 0 ≠ round (1000000000 * (value 1.5e-9 + value 0.0)) := by
  constructor
  · obtain ⟨b, r, accepted, called, counted⟩ :=
      exists_reading_eq (show Scalar.isFinite (0.1 : Float) = true by decide +kernel)
        (show nanoseconds? ((1e9 : Float) + 0.1) = some 1000000000100000024 by decide +kernel)
        (by decide)
    refine ⟨b, r, accepted, called, ?_⟩
    have tenth : valueOf 0.1 = .finite .positive 0x1999999999999A (-56) (by decide) := by rfl
    have exact : round (1000000000 * (value 1e9 + value 0.1)) = 1000000000100000000 := by
      rw [value_nanosecondsInSecond.2, (Binary64.value_of_positive tenth).2, round_eq,
        Int.floor_eq_iff]
      norm_num
    rw [counted, exact]
    decide
  · obtain ⟨b, r, accepted, called, counted⟩ :=
      exists_reading_eq (show Scalar.isFinite (0.0 : Float) = true by decide +kernel)
        (show nanoseconds? ((1.5e-9 : Float) + 0.0) = some 2 by decide +kernel) (by decide)
    refine ⟨b, r, accepted, called, ?_⟩
    have below : valueOf 1.5e-9 = .finite .positive 0x19C511DC3A41DF (-82) (by decide) := by rfl
    have exact : round (1000000000 * (value 1.5e-9 + value 0.0)) = 1 := by
      rw [Binary64.value_zero, (Binary64.value_of_positive below).2, round_eq, Int.floor_eq_iff]
      norm_num
    rw [counted, exact]
    decide

end Block

end ControlBlocks.CalendarTime

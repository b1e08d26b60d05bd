import ControlBlocks.Calendar.Date
import Mathlib.Algebra.Order.BigOperators.Group.List
import Mathlib.Algebra.Order.Ring.Nat

/-!
# Dates and day numbers

Counting off years and months is the inverse of adding them up, and keeps the order.

* `daysBeforeYear_succ` — years one after the other;
* `monthAndDay_spec` — months counted off a year;
* `Date.ofDayNumber_spec` — years counted off a day number;
* `Date.isValid_ofDayNumber`, `Date.dayNumber_ofDayNumber` — the date of a day number is in the
  calendar, and has that number;
* `Date.dayNumber_lt`, `Date.ofDayNumber_before` — dates of the calendar are numbered in their
  order;
* `Date.le_year_ofDayNumber_iff` — where a year begins.
-/

set_option autoImplicit false

namespace ControlBlocks.Calendar

/-! ## Years -/

/-- The number of days in a year. -/
def yearLength (year : ℤ) : ℕ := (monthLengths (isLeap year)).sum

theorem yearLength_eq (year : ℤ) : yearLength year = if isLeap year then 366 else 365 := by
  unfold yearLength
  cases isLeap year <;> rfl

theorem isLeap_iff (year : ℤ) :
    isLeap year = true ↔ year % 4 = 0 ∧ (year % 100 ≠ 0 ∨ year % 400 = 0) := by
  simp [isLeap]

theorem daysBeforeYear_eq (year : ℤ) :
    daysBeforeYear year =
      365 * (year - 1) + (year - 1) / 4 - (year - 1) / 100 + (year - 1) / 400 := rfl

/-- A year begins where the one before it ends. -/
theorem daysBeforeYear_succ (year : ℤ) :
    daysBeforeYear (year + 1) = daysBeforeYear year + yearLength year := by
  rw [yearLength_eq, daysBeforeYear_eq, daysBeforeYear_eq]
  split_ifs with hleap
  · rw [isLeap_iff] at hleap
    omega
  · rw [isLeap_iff] at hleap
    omega

theorem daysBeforeYear_le {year year' : ℤ} (h : year ≤ year') :
    daysBeforeYear year ≤ daysBeforeYear year' := by
  rw [daysBeforeYear_eq, daysBeforeYear_eq]
  omega

/-- A later year begins when the days of a year are over. -/
theorem daysBeforeYear_add_le {year year' : ℤ} (h : year < year') :
    daysBeforeYear year + yearLength year ≤ daysBeforeYear year' := by
  rw [← daysBeforeYear_succ]
  exact daysBeforeYear_le h

/-! ## Months -/

theorem daysBeforeMonth_eq (leap : Bool) (month : ℕ) :
    daysBeforeMonth leap month = ((monthLengths leap).take (month - 1)).sum :=
  List.sum_eq_foldl.symm

/-- A month begins where the one before it ends. -/
theorem daysBeforeMonth_succ {year : ℤ} {month : ℕ} (h : 1 ≤ month) (h' : month ≤ 12) :
    daysBeforeMonth (isLeap year) (month + 1) =
      daysBeforeMonth (isLeap year) month + daysInMonth year month := by
  obtain ⟨k, rfl⟩ : ∃ k, month = k + 1 := ⟨month - 1, by omega⟩
  have inside : k < (monthLengths (isLeap year)).length := by
    show k < 12
    omega
  rw [daysBeforeMonth_eq, daysBeforeMonth_eq, daysInMonth, if_neg (Nat.succ_ne_zero k),
    Nat.add_sub_cancel, Nat.add_sub_cancel, List.getElem?_eq_getElem inside, Option.getD_some]
  exact List.sum_take_succ _ _ inside

theorem daysBeforeMonth_le (leap : Bool) {month month' : ℕ} (h : month ≤ month') :
    daysBeforeMonth leap month ≤ daysBeforeMonth leap month' := by
  rw [daysBeforeMonth_eq, daysBeforeMonth_eq]
  exact List.monotone_sum_take _ (Nat.sub_le_sub_right h 1)

/-- Months counted off a year: the day is one of the month, after the days of the months before. -/
theorem monthAndDay_spec (month : ℕ) (lengths : List ℕ) (n : ℕ) (h : n < lengths.sum) :
    ∃ k day, ∃ hk : k < lengths.length, monthAndDay month lengths n = (month + k, day) ∧
      1 ≤ day ∧ day ≤ lengths[k] ∧ (lengths.take k).sum + day = n + 1 := by
  induction lengths generalizing month n with
  | nil => exact absurd h (Nat.not_lt_zero n)
  | cons length rest ih =>
    rw [monthAndDay]
    split_ifs with hfirst
    · exact ⟨0, n + 1, Nat.succ_pos _, rfl, Nat.succ_pos n, hfirst, Nat.zero_add _⟩
    · rw [List.sum_cons] at h
      obtain ⟨k, day, hk, here, low, high, total⟩ := ih (month + 1) (n - length) (by omega)
      refine ⟨k + 1, day, Nat.succ_lt_succ hk, ?_, low, high, ?_⟩
      · rw [here, Nat.add_right_comm, Nat.add_assoc]
      · rw [List.take_succ_cons, List.sum_cons]
        omega

namespace Date

/-! ## The date of a day number -/

variable {n n' : ℤ} {d d' : Date}

/-- Years and months counted off a day number: the day is one of the year, after the days of the
years before. -/
theorem ofDayNumber_spec (n : ℤ) :
    ∃ rest, rest < yearLength (ofDayNumber n).year ∧
      n + epoch = daysBeforeYear (ofDayNumber n).year + rest ∧
      monthAndDay 1 (monthLengths (isLeap (ofDayNumber n).year)) rest =
        ((ofDayNumber n).month, (ofDayNumber n).day) := by
  unfold ofDayNumber
  extract_lets day cycle inCycle century inCentury group inGroup one year
  -- what is left of a cycle, of a century and of four years
  have cycle_eq : day = 146097 * cycle + inCycle ∧ inCycle < 146097 := by omega
  have century_eq : inCycle = 36524 * century + inCentury ∧ century ≤ 3 ∧ inCentury ≤ 36524 ∧
      (inCentury = 36524 → century = 3) := by omega
  have group_eq : inCentury = 1461 * group + inGroup ∧ group ≤ 24 ∧ inGroup < 1461 := by omega
  obtain ⟨rest, hrest⟩ : ∃ rest, inGroup - one * 365 = rest := ⟨_, rfl⟩
  have one_eq : inGroup = 365 * one + rest ∧ one ≤ 3 ∧ rest ≤ 365 ∧ (rest = 365 → one = 3) := by
    omega
  have year_eq : year = cycle * 400 + century * 100 + group * 4 + one + 1 := rfl
  have day_eq : day = n + epoch := rfl
  rw [hrest, ← day_eq]
  clear_value day cycle inCycle century inCentury group inGroup one year
  refine ⟨rest, ?_, ?_, rfl⟩
  · show rest < yearLength year
    rw [yearLength_eq]
    split_ifs with hleap
    · omega
    · rw [isLeap_iff] at hleap
      omega
  · show day = daysBeforeYear year + rest
    have fours : (year - 1) / 4 = 100 * cycle + 25 * century + group := by omega
    have hundreds : (year - 1) / 100 = 4 * cycle + century := by omega
    have cycles : (year - 1) / 400 = cycle := by omega
    rw [daysBeforeYear_eq, fours, hundreds, cycles]
    omega

/-- The date of a day number is in the calendar. -/
theorem isValid_ofDayNumber (n : ℤ) : (ofDayNumber n).IsValid := by
  obtain ⟨rest, short, -, here⟩ := ofDayNumber_spec n
  obtain ⟨k, day, hk, spec, low, high, -⟩ := monthAndDay_spec 1 _ rest short
  obtain ⟨month, rfl⟩ := Prod.mk.inj (here.symm.trans spec)
  have last : k < 12 := hk
  refine ⟨by omega, by omega, low, high.trans_eq ?_⟩
  rw [daysInMonth, if_neg (by omega), month, Nat.add_sub_cancel_left, List.getElem?_eq_getElem hk]
  rfl

/-- The date of a day number has that number. -/
theorem dayNumber_ofDayNumber (n : ℤ) : (ofDayNumber n).dayNumber = n := by
  obtain ⟨rest, short, total, here⟩ := ofDayNumber_spec n
  obtain ⟨k, day, -, spec, -, -, days⟩ := monthAndDay_spec 1 _ rest short
  obtain ⟨month, rfl⟩ := Prod.mk.inj (here.symm.trans spec)
  rw [dayNumber, month, daysBeforeMonth_eq, Nat.add_sub_cancel_left]
  omega

/-! ## The order of dates -/

/-- The date is earlier: in the first of year, month and day that differ. -/
def Before (d d' : Date) : Prop :=
  d.year < d'.year ∨ d.year = d'.year ∧
    (d.month < d'.month ∨ d.month = d'.month ∧ d.day < d'.day)

theorem before_or_eq_or_before (d d' : Date) : d.Before d' ∨ d = d' ∨ d'.Before d := by
  obtain ⟨year, month, day⟩ := d
  obtain ⟨year', month', day'⟩ := d'
  simp only [Before, Date.mk.injEq]
  omega

/-- A day of a month is one of its year. -/
theorem IsValid.le_yearLength (h : d.IsValid) :
    daysBeforeMonth (isLeap d.year) d.month + d.day ≤ yearLength d.year := by
  obtain ⟨first, last, -, short⟩ := h
  calc daysBeforeMonth (isLeap d.year) d.month + d.day
      ≤ daysBeforeMonth (isLeap d.year) d.month + daysInMonth d.year d.month := by omega
    _ = daysBeforeMonth (isLeap d.year) (d.month + 1) := (daysBeforeMonth_succ first last).symm
    _ ≤ daysBeforeMonth (isLeap d.year) 13 := daysBeforeMonth_le _ (by omega)
    _ = yearLength d.year := daysBeforeMonth_eq _ _

/-- Dates of the calendar are numbered in their order. -/
theorem dayNumber_lt (hd : d.IsValid) (hd' : d'.IsValid) (h : d.Before d') :
    d.dayNumber < d'.dayNumber := by
  have inYear := hd.le_yearLength
  obtain ⟨first, last, low, short⟩ := hd
  obtain ⟨first', last', low', short'⟩ := hd'
  simp only [dayNumber]
  obtain year | ⟨year, month | ⟨month, day⟩⟩ := h
  · have := daysBeforeYear_add_le year
    omega
  · have begins := daysBeforeMonth_le (isLeap d.year) (Nat.succ_le_of_lt month)
    rw [Nat.succ_eq_add_one, daysBeforeMonth_succ first last] at begins
    rw [← year]
    omega
  · rw [← year, ← month]
    omega

/-- A later day has a later date. -/
theorem ofDayNumber_before (h : n < n') : (ofDayNumber n).Before (ofDayNumber n') := by
  obtain before | same | after := before_or_eq_or_before (ofDayNumber n) (ofDayNumber n')
  · exact before
  · have := congrArg dayNumber same
    rw [dayNumber_ofDayNumber, dayNumber_ofDayNumber] at this
    exact absurd this h.ne
  · have := dayNumber_lt (isValid_ofDayNumber n') (isValid_ofDayNumber n) after
    rw [dayNumber_ofDayNumber, dayNumber_ofDayNumber] at this
    exact absurd this h.not_gt

/-- A year begins on the first day of its first month. -/
theorem le_year_ofDayNumber_iff (year : ℤ) (n : ℤ) :
    year ≤ (ofDayNumber n).year ↔ dayNumber ⟨year, 1, 1⟩ ≤ n := by
  obtain ⟨rest, short, total, -⟩ := ofDayNumber_spec n
  have first : dayNumber ⟨year, 1, 1⟩ = daysBeforeYear year - epoch := by
    simp only [dayNumber, daysBeforeMonth_eq]
    show _ + ((0 : ℕ) : ℤ) + ((1 : ℕ) : ℤ) - 1 - _ = _
    omega
  rw [first]
  constructor
  · intro h
    have := daysBeforeYear_le h
    omega
  · intro h
    by_contra hlt
    have := daysBeforeYear_add_le (not_le.1 hlt)
    omega

end Date

end ControlBlocks.Calendar

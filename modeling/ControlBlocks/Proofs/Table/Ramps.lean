import ControlBlocks.Memoryless.RealMath
import ControlBlocks.Proofs.Exact.Scalar
import ControlBlocks.Proofs.Table.Stamps
import ControlBlocks.Source.Wave
import Mathlib.Algebra.Order.Field.Basic
import Mathlib.Order.Interval.Set.UnorderedInterval
import Mathlib.Tactic.FieldSimp
import Mathlib.Tactic.Ring

/-!
# Ramps

A change from one level to another within a time, written in three ways.

* `Wave.Ramp.progress` — the part of the change that has been made at a time;
* `Wave.Ramp.value_eq`, `line_eq`, `lookup_corners` — a ramp, the line through its corners and the
  table of its corners, all by that part;
* `Wave.Ramp.written_three_ways` — the same of the blocks.
-/

set_option autoImplicit false

namespace ControlBlocks.Wave.Ramp

variable {p : Ramp Rat} {t : Rat}

/-! ## Progress -/

/-- The part of the change that has been made at a time, from zero to one. -/
def progress (p : Ramp Rat) (t : Rat) : Rat := max 0 (min ((t - p.start) / p.duration) 1)

theorem progress_nonneg (p : Ramp Rat) (t : Rat) : 0 ≤ p.progress t := le_max_left _ _

theorem progress_le_one (p : Ramp Rat) (t : Rat) : p.progress t ≤ 1 :=
  max_le zero_le_one (min_le_right _ _)

theorem monotone_progress (hduration : 0 < p.duration) : Monotone p.progress := by
  intro s t hst
  have part : (s - p.start) / p.duration ≤ (t - p.start) / p.duration :=
    div_le_div_of_nonneg_right (sub_le_sub_right hst p.start) hduration.le
  exact max_le_max le_rfl (min_le_min part le_rfl)

theorem progress_of_le_start (hduration : 0 < p.duration) (ht : t ≤ p.start) :
    p.progress t = 0 := by
  have part : (t - p.start) / p.duration ≤ 0 :=
    div_nonpos_of_nonpos_of_nonneg (sub_nonpos.2 ht) hduration.le
  exact max_eq_left ((min_le_left _ _).trans part)

theorem progress_of_end_le (hduration : 0 < p.duration) (ht : p.start + p.duration ≤ t) :
    p.progress t = 1 := by
  have part : 1 ≤ (t - p.start) / p.duration := by
    rw [one_le_div hduration]
    linarith
  rw [progress, min_eq_right part, max_eq_right zero_le_one]

theorem progress_of_mem (hduration : 0 < p.duration) (hstart : p.start ≤ t)
    (hend : t ≤ p.start + p.duration) : p.progress t = (t - p.start) / p.duration := by
  have low : 0 ≤ (t - p.start) / p.duration := div_nonneg (sub_nonneg.2 hstart) hduration.le
  have high : (t - p.start) / p.duration ≤ 1 := by
    rw [div_le_one hduration]
    linarith
  rw [progress, min_eq_left high, max_eq_right low]

/-! ## Three ways to write it -/

theorem value_eq (hduration : 0 < p.duration) (t : Rat) :
    p.value t = p.offset + p.height * p.progress t := by
  have part : Scalar.clamp 0 p.duration (t - p.start) / p.duration = p.progress t := by
    rw [Scalar.clamp_eq_max_min hduration.le, ← max_div_div_right hduration.le,
      ← min_div_div_right hduration.le, zero_div, div_self hduration.ne', progress]
  rw [value, mul_div_assoc, part]

/-- Where the line is evaluated: as far between the corners as the change has been made. -/
theorem min_max_eq (hduration : 0 < p.duration) (t : Rat) :
    min (max t p.start) (p.start + p.duration) = p.start + p.duration * p.progress t := by
  rcases lt_or_ge t p.start with hbefore | hstart
  · rw [progress_of_le_start hduration hbefore.le, max_eq_right hbefore.le, mul_zero, add_zero]
    exact min_eq_left (by linarith)
  · rw [max_eq_left hstart]
    rcases lt_or_ge (p.start + p.duration) t with hafter | hend
    · rw [progress_of_end_le hduration hafter.le, min_eq_right hafter.le, mul_one]
    · rw [progress_of_mem hduration hstart hend, min_eq_left hend, mul_div_cancel₀ _ hduration.ne',
        add_sub_cancel]

/-- The corners of a ramp, and a place. -/
def corners (p : Ramp Rat) (u : Rat) : RealMath.Line.Input Rat :=
  ⟨p.start, p.offset, p.start + p.duration, p.offset + p.height, u⟩

theorem line_eq (hduration : 0 < p.duration) (t : Rat) :
    RealMath.Line.value ⟨true, true⟩ (p.corners t) = p.offset + p.height * p.progress t := by
  have apart : (p.start + p.duration == p.start) = false := by simpa using hduration.ne'
  simp only [RealMath.Line.value, corners, apart, Bool.false_eq_true, if_false, if_true,
    Scalar.larger_eq_max, Scalar.smaller_eq_min, min_max_eq hduration]
  rw [add_sub_cancel_left, add_sub_cancel_left]
  field_simp
  ring

/-- The rows of a table with the corners of a ramp. -/
def cornerRows (p : Ramp Rat) : List (List Rat) :=
  [[p.start, p.offset], [p.start + p.duration, p.offset + p.height]]

/-- The table with the corners of a ramp. -/
def cornerTable (p : Ramp Rat) : Table Rat :=
  ⟨[⟨p.start, [p.offset]⟩, ⟨p.start + p.duration, [p.offset + p.height]⟩]⟩

theorem parse_cornerRows (hduration : 0 < p.duration) :
    Table.parse "RealTimeTable" p.cornerRows 1 = .ok p.cornerTable := by
  rw [Table.parse_eq_ok_iff]
  simp [cornerRows, cornerTable, Table.Regular, Table.Ascends, Table.rowOf, Scalar.isFinite_exact,
    hduration.le]

/-- Within the range there is but one segment, whichever row was reached. -/
theorem within_corners (hduration : 0 < p.duration) (t : Rat) :
    Interpolation.within p.cornerTable .linear t =
      [p.offset + p.height * ((t - p.start) / p.duration)] := by
  have last : p.cornerTable.last = 1 := rfl
  have span : p.cornerTable.stamp 1 - p.start = p.duration :=
    add_sub_cancel_left p.start p.duration
  have first : p.cornerTable.stamp 0 = p.start := rfl
  unfold Interpolation.within
  simp only [last, one_ne_zero, reduceCtorEq, or_self, if_false, Nat.sub_self, Nat.min_zero,
    zero_add, span, not_le.2 hduration, first]
  show [p.offset + (t - p.start) / p.duration * (p.offset + p.height - p.offset)] = _
  rw [add_sub_cancel_left, mul_comm p.height]

theorem lookup_corners (hduration : 0 < p.duration) (t : Rat) :
    Interpolation.lookup p.cornerTable .linear .holdLastPoint t =
      [p.offset + p.height * p.progress t] := by
  have first : p.cornerTable.stamp 0 = p.start := rfl
  have final : p.cornerTable.stamp p.cornerTable.last = p.start + p.duration := rfl
  unfold Interpolation.lookup
  simp only [first, final]
  rcases lt_or_ge t p.start with hbefore | hstart
  · rw [if_pos (.inl hbefore), if_pos hbefore, progress_of_le_start hduration hbefore.le, mul_zero,
      add_zero]
    rfl
  · rcases lt_or_ge (p.start + p.duration) t with hafter | hend
    · rw [if_pos (.inr hafter), if_neg (not_lt.2 hstart), progress_of_end_le hduration hafter.le,
        mul_one]
      rfl
    · rw [if_neg (not_or.2 ⟨not_lt.2 hstart, not_lt.2 hend⟩), within_corners hduration,
        progress_of_mem hduration hstart hend]

/-! ## Levels -/

theorem value_of_le_start (hduration : 0 < p.duration) (ht : t ≤ p.start) :
    p.value t = p.offset := by
  rw [value_eq hduration, progress_of_le_start hduration ht, mul_zero, add_zero]

theorem value_of_end_le (hduration : 0 < p.duration) (ht : p.start + p.duration ≤ t) :
    p.value t = p.offset + p.height := by
  rw [value_eq hduration, progress_of_end_le hduration ht, mul_one]

theorem value_of_mem (hduration : 0 < p.duration) (hstart : p.start ≤ t)
    (hend : t ≤ p.start + p.duration) :
    p.value t = p.offset + p.height * ((t - p.start) / p.duration) := by
  rw [value_eq hduration, progress_of_mem hduration hstart hend]

theorem monotone_value (hduration : 0 < p.duration) (hheight : 0 ≤ p.height) :
    Monotone p.value := by
  intro s t hst
  rw [value_eq hduration, value_eq hduration]
  have := mul_le_mul_of_nonneg_left (monotone_progress hduration hst) hheight
  linarith

theorem antitone_value (hduration : 0 < p.duration) (hheight : p.height ≤ 0) :
    Antitone p.value := by
  intro s t hst
  rw [value_eq hduration, value_eq hduration]
  have := mul_le_mul_of_nonpos_left (monotone_progress hduration hst) hheight
  linarith

/-- A ramp never leaves its two levels. -/
theorem value_mem_uIcc (hduration : 0 < p.duration) (t : Rat) :
    p.value t ∈ Set.uIcc p.offset (p.offset + p.height) := by
  rw [value_eq hduration, Set.mem_uIcc]
  have low := p.progress_nonneg t
  have high := p.progress_le_one t
  rcases le_total 0 p.height with hheight | hheight
  · have := mul_nonneg hheight low
    have := mul_le_of_le_one_right hheight high
    exact .inl ⟨by linarith, by linarith⟩
  · have := mul_nonpos_of_nonpos_of_nonneg hheight low
    have := mul_le_mul_of_nonpos_left high hheight
    exact .inr ⟨by linarith, by linarith⟩

/-! ## The blocks -/

theorem block_eq_ok (hduration : 0 < p.duration) :
    p.block = .ok (.source "Ramp" fun t => .ok (p.value t)) :=
  map_eq_ok_iff.2 ⟨_, requirePositive_eq_ok_iff.2 ⟨hduration, rfl⟩, rfl⟩

theorem block_cornerRows (hduration : 0 < p.duration) :
    Interpolation.block p.cornerRows ⟨.linear, .holdLastPoint, none, 1⟩ =
      .ok (.source "RealTimeTable" fun t => .ok (List.zipWith (· + ·)
        (Interpolation.lookup p.cornerTable .linear .holdLastPoint t) [0])) :=
  Interpolation.block_eq_ok_iff.2 ⟨p.cornerTable, [0], parse_cornerRows hduration, rfl, rfl⟩

/-- **Three ways to write a ramp.**  The ramp at a time, the line through its corners there with
both ends held, and the table of its corners, interpolated and held outside its range, give the
same: the offset up to the start, the height more from the end on, and the part of it that has
passed in between.  It goes the way of the height throughout, and never leaves the two levels. -/
theorem written_three_ways (p : Ramp Rat) (hduration : 0 < p.duration) :
    ∃ ramp table, p.block = .ok ramp ∧
      Interpolation.block
        [[p.start, p.offset], [p.start + p.duration, p.offset + p.height]]
        ⟨.linear, .holdLastPoint, none, 1⟩ = .ok table ∧
      ∃ y : Rat → Rat,
        (∀ t, ramp.call ⟨t, ()⟩ () = .ok (y t, ()) ∧ table.call ⟨t, ()⟩ () = .ok ([y t], ()) ∧
          ∀ now, (RealMath.Line.block ⟨true, true⟩).call
            ⟨now, ⟨p.start, p.offset, p.start + p.duration, p.offset + p.height, t⟩⟩ () =
              .ok (y t, ())) ∧
        (0 ≤ p.height → Monotone y) ∧ (p.height ≤ 0 → Antitone y) ∧
        (∀ t, y t ∈ Set.uIcc p.offset (p.offset + p.height)) ∧
        (∀ t ≤ p.start, y t = p.offset) ∧
        (∀ t, p.start ≤ t → t ≤ p.start + p.duration →
          y t = p.offset + p.height * ((t - p.start) / p.duration)) ∧
        ∀ t, p.start + p.duration ≤ t → y t = p.offset + p.height := by
  refine ⟨_, _, block_eq_ok hduration, block_cornerRows hduration, p.value, fun t => ⟨rfl, ?_, ?_⟩,
    monotone_value hduration, antitone_value hduration, value_mem_uIcc hduration,
    fun _ => value_of_le_start hduration, fun _ => value_of_mem hduration,
    fun _ => value_of_end_le hduration⟩
  · have offset : List.zipWith (· + ·)
        (Interpolation.lookup p.cornerTable .linear .holdLastPoint t) [0] = [p.value t] := by
      rw [lookup_corners hduration, ← value_eq hduration]
      simp
    exact congrArg (fun y => Except.ok (y, ())) offset
  · intro now
    have line := (line_eq hduration t).trans (value_eq hduration t).symm
    exact congrArg (fun y => Except.ok (y, ())) line

/-- A fall by three within two seconds, halfway through, and after its end. -/
theorem written_three_ways_falling :
    ∃ ramp table, (⟨-3, 2, 1, 5⟩ : Ramp Rat).block = .ok ramp ∧
      Interpolation.block [[(5 : Rat), 1], [5 + 2, 1 + -3]] ⟨.linear, .holdLastPoint, none, 1⟩ =
        .ok table ∧
      ramp.call ⟨6, ()⟩ () = .ok (-1 / 2, ()) ∧ table.call ⟨6, ()⟩ () = .ok ([-1 / 2], ()) ∧
      (RealMath.Line.block ⟨true, true⟩).call ⟨(0 : Rat), ⟨5, 1, 5 + 2, 1 + -3, 6⟩⟩ () =
        .ok (-1 / 2, ()) ∧
      ramp.call ⟨9, ()⟩ () = .ok (-2, ()) ∧ table.call ⟨9, ()⟩ () = .ok ([-2], ()) := by
  obtain ⟨ramp, table, hramp, htable, y, hcall, -, -, -, -, hwithin, hafter⟩ :=
    written_three_ways ⟨-3, 2, 1, 5⟩ two_pos
  have half : y 6 = -1 / 2 := (hwithin 6 (by norm_num) (by norm_num)).trans (by norm_num)
  have past : y 9 = -2 := (hafter 9 (by norm_num)).trans (by norm_num)
  obtain ⟨ramp₆, table₆, line₆⟩ := hcall 6
  obtain ⟨ramp₉, table₉, -⟩ := hcall 9
  rw [half] at ramp₆ table₆ line₆
  rw [past] at ramp₉ table₉
  exact ⟨ramp, table, hramp, htable, ramp₆, table₆, line₆ 0, ramp₉, table₉⟩

end ControlBlocks.Wave.Ramp

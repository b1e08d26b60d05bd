import ControlBlocks.Proofs.Table.Segments

/-!
# The time axis of an interpolated table

What a table gives at times that are moved along by its range, or counted in another unit.

* `lookup_add_mul` — a table that is repeated gives the same a whole number of ranges earlier or
  later, save at its last stamp;
* `Table.stretched` — the rows at times that are a number of times as far from zero;
* `lookup_stretched` — a stretched table gives at a stretched time what the table gives at the time;
* `repeats_and_stretches` — the same of the block, which is stretched by the unit of its time
  column.
-/

set_option autoImplicit false

namespace ControlBlocks

namespace Interpolation

variable {t : Table Rat} {time : Rat}

/-! ## A whole number of ranges on -/

/-- A whole number of ranges after a time within the range, a table that is repeated gives what it
gives at that time.  At its last stamp it is looked up as it is, whichever row it began with. -/
theorem lookup_add_mul (hfirst : t.stamp 0 ≤ time) (hfinal : time < t.stamp t.last) {m : ℤ}
    (hlast : time + m * (t.stamp t.last - t.stamp 0) ≠ t.stamp t.last) (smoothness : Smoothness) :
    lookup t smoothness .periodic (time + m * (t.stamp t.last - t.stamp 0)) =
      lookup t smoothness .periodic time := by
  have hrange : t.stamp 0 < t.stamp t.last := hfirst.trans_lt hfinal
  have positive : 0 < t.stamp t.last - t.stamp 0 := sub_pos.2 hrange
  by_cases hzero : m = 0
  · rw [hzero, Int.cast_zero, zero_mul, add_zero]
  · -- any other number of ranges leads out of the range
    have outside : time + m * (t.stamp t.last - t.stamp 0) < t.stamp 0 ∨
        t.stamp t.last < time + m * (t.stamp t.last - t.stamp 0) := by
      rcases lt_or_gt_of_ne hzero with hneg | hpos
      · have backward : (m : Rat) ≤ -1 := by exact_mod_cast Int.le_sub_one_of_lt hneg
        have := mul_le_mul_of_nonneg_right backward positive.le
        exact .inl (by linarith)
      · have forward : (1 : Rat) ≤ m := by exact_mod_cast hpos
        have := mul_le_mul_of_nonneg_right forward positive.le
        exact .inr (lt_of_le_of_ne (by linarith) hlast.symm)
    have wrapped : t.stamp 0 + Scalar.floorMod
        (time + m * (t.stamp t.last - t.stamp 0) - t.stamp 0) (t.stamp t.last - t.stamp 0) =
          time := by
      rw [add_sub_right_comm, Scalar.floorMod_add_mul positive.ne',
        Scalar.floorMod_eq_self (sub_nonneg.2 hfirst) (sub_lt_sub_right hfinal _), add_sub_cancel]
    rw [lookup_wrapped hrange outside, wrapped, lookup_within hfirst hfinal.le]

end Interpolation

/-! ## Another unit -/

namespace Table

/-- The rows at times that are `c` times as far from zero. -/
def stretched (c : Rat) (t : Table Rat) : Table Rat :=
  ⟨t.rows.map fun r => ⟨c * r.stamp, r.values⟩⟩

section Stretched

variable {t : Table Rat} {c : Rat}

theorem row_stretched (c : Rat) (t : Table Rat) (i : ℕ) :
    (t.stretched c).row i = ⟨c * t.stamp i, t.values i⟩ := by
  cases hrow : t.rows[i]? with
  | none => simp [row, stamp, values, stretched, hrow]
  | some r => simp [row, stamp, values, stretched, hrow]

@[simp] theorem stamp_stretched (c : Rat) (t : Table Rat) (i : ℕ) :
    (t.stretched c).stamp i = c * t.stamp i := by
  rw [stamp, row_stretched]

@[simp] theorem values_stretched (c : Rat) (t : Table Rat) (i : ℕ) :
    (t.stretched c).values i = t.values i := by
  rw [values, row_stretched]

@[simp] theorem length_rows_stretched (c : Rat) (t : Table Rat) :
    (t.stretched c).rows.length = t.rows.length := List.length_map _

@[simp] theorem last_stretched (c : Rat) (t : Table Rat) : (t.stretched c).last = t.last := by
  rw [last, length_rows_stretched, last]

@[simp] theorem columns_stretched (c : Rat) (t : Table Rat) :
    (t.stretched c).columns = t.columns := by
  rw [columns, values_stretched, columns]

theorem rowAtOrBefore?_stretched (hc : 0 < c) (t : Table Rat) (time : Rat) :
    (t.stretched c).rowAtOrBefore? (c * time) = t.rowAtOrBefore? time := by
  simp only [rowAtOrBefore?, stamp_stretched, length_rows_stretched, mul_le_mul_iff_right₀ hc]

theorem stretched_rows (scale : Rat) (cells : List (List Rat)) :
    (⟨cells.map (rowOf scale)⟩ : Table Rat) = stretched scale ⟨cells.map (rowOf 1)⟩ := by
  simp [stretched, rowOf, mul_comm]

/-- Whatever the unit of time, the same cells make a table. -/
theorem ascends_iff_of_pos {scale : Rat} (hscale : 0 < scale) (cells : List (List Rat)) :
    Ascends scale none cells ↔ Ascends 1 none cells := by
  simp only [Ascends, Option.toList_none, List.nil_append, List.isChain_map, rowOf,
    mul_lt_mul_iff_left₀ hscale, mul_one]

theorem parse_of_parse {block : String} {cells : List (List Rat)} {scale scale' : Rat}
    (h : parse block cells scale = .ok t) (hscale' : 0 < scale') :
    parse block cells scale' = .ok ⟨cells.map (rowOf scale')⟩ := by
  obtain ⟨hscale, hne, hwide, hregular, hascend, -⟩ := parse_eq_ok_iff.1 h
  exact parse_eq_ok_iff.2 ⟨hscale', hne, hwide, hregular,
    (ascends_iff_of_pos hscale' cells).2 ((ascends_iff_of_pos hscale cells).1 hascend), rfl⟩

end Stretched

end Table

namespace Interpolation

variable {t : Table Rat} {c : Rat}

/-- A span that is stretched is empty just if it was. -/
theorem mul_nonpos_iff_of_pos (hc : 0 < c) (span : Rat) : c * span ≤ 0 ↔ span ≤ 0 := by
  rw [← not_lt, mul_pos_iff_of_pos_left hc, not_lt]

theorem within_stretched (hc : 0 < c) (t : Table Rat) (smoothness : Smoothness) (time : Rat) :
    within (t.stretched c) smoothness (c * time) = within t smoothness time := by
  simp only [within, Table.rowAtOrBefore?_stretched hc, Table.last_stretched,
    Table.values_stretched, Table.stamp_stretched, ← mul_sub, mul_nonpos_iff_of_pos hc,
    mul_div_mul_left _ _ hc.ne']

theorem continued_stretched (hc : 0 < c) (t : Table Rat) (fromEnd : ℕ) (time : Rat) :
    continued (t.stretched c) fromEnd (c * time) = continued t fromEnd time := by
  by_cases hlast : t.last = 0
  · simp [continued, hlast]
  · simp only [continued, Table.last_stretched, if_neg hlast, Table.values_stretched,
      Table.stamp_stretched, ← mul_sub, mul_nonpos_iff_of_pos hc,
      mul_div_mul_left _ _ hc.ne']

/-- Every way to look up a table commutes with a change of the unit. -/
theorem lookup_stretched (hc : 0 < c) (t : Table Rat) (smoothness : Smoothness)
    (extrapolation : Extrapolation) (time : Rat) :
    lookup (t.stretched c) smoothness extrapolation (c * time) =
      lookup t smoothness extrapolation time := by
  have wrapped : c * t.stamp 0 +
      Scalar.floorMod (c * (time - t.stamp 0)) (c * (t.stamp t.last - t.stamp 0)) =
        c * (t.stamp 0 + Scalar.floorMod (time - t.stamp 0) (t.stamp t.last - t.stamp 0)) := by
    rw [Scalar.floorMod_mul_mul hc.ne', mul_add]
  cases extrapolation <;>
    simp only [lookup, Table.stamp_stretched, Table.last_stretched, Table.values_stretched,
      mul_lt_mul_iff_right₀ hc, within_stretched hc, continued_stretched hc, ← mul_sub,
      mul_nonpos_iff_of_pos hc, wrapped]

/-! ## The block -/

variable {cells : List (List Rat)} {k : Config Rat} {b : Block Rat Unit Unit (List Rat)}

theorem offsets_stretched (c : Rat) (t : Table Rat) (offset : Option (List Rat)) :
    offsets (t.stretched c) offset = offsets t offset := by
  cases offset <;> simp only [offsets, Table.columns_stretched]

/-- What is accepted with one unit of time is accepted with any other, and gives the values of the
table with that unit. -/
theorem exists_block_of_pos (hb : block cells k = .ok b) {scale : Rat} (hscale : 0 < scale) :
    ∃ offset, offsets ⟨cells.map (Table.rowOf 1)⟩ k.offset = .ok offset ∧
      block cells { k with scale := scale } = .ok (.source "RealTimeTable" fun now =>
        .ok (List.zipWith (· + ·) (lookup ⟨cells.map (Table.rowOf scale)⟩ k.smoothness
          k.extrapolation now) offset)) := by
  obtain ⟨t, offset, ht, hoffset, -⟩ := block_eq_ok_iff.1 hb
  obtain rfl : t = ⟨cells.map (Table.rowOf k.scale)⟩ := (Table.parse_eq_ok_iff.1 ht).2.2.2.2.2
  rw [Table.stretched_rows, offsets_stretched] at hoffset
  refine ⟨offset, hoffset, block_eq_ok_iff.2 ⟨_, offset, Table.parse_of_parse ht hscale, ?_, rfl⟩⟩
  rwa [Table.stretched_rows, offsets_stretched]

/-- **Repetitions and units of time.**  An accepted table that is repeated gives at any time the
values of the time within its range that lies a whole number of ranges earlier or later; the last
stamp alone is looked up as it is.  And whichever way a table goes on outside its range, the same
cells with a unit of time that is a number of times as long give the same values at times that are
as many times as far from zero. -/
theorem repeats_and_stretches (hb : block cells k = .ok b)
    (ht : Table.parse "RealTimeTable" cells k.scale = .ok t) :
    (k.extrapolation = .periodic → ∀ now, t.stamp 0 ≤ now → now < t.stamp t.last → ∀ m : ℤ,
      now + m * (t.stamp t.last - t.stamp 0) ≠ t.stamp t.last → ∃ y, ∀ s,
        b.call ⟨now, ()⟩ s = .ok (y, s) ∧
          b.call ⟨now + m * (t.stamp t.last - t.stamp 0), ()⟩ s = .ok (y, s)) ∧
    ∀ scale, 0 < scale → ∃ unit scaled, block cells { k with scale := 1 } = .ok unit ∧
      block cells { k with scale := scale } = .ok scaled ∧ ∀ now, ∃ y, ∀ s,
        unit.call ⟨now, ()⟩ s = .ok (y, s) ∧ scaled.call ⟨scale * now, ()⟩ s = .ok (y, s) := by
  constructor
  · intro hperiodic now hfirst hfinal m hlast
    obtain ⟨t', offset, ht', -, rfl⟩ := block_eq_ok_iff.1 hb
    obtain rfl : t = t' := Except.ok.inj (ht.symm.trans ht')
    have same := lookup_add_mul hfirst hfinal hlast k.smoothness
    rw [← hperiodic] at same
    refine ⟨_, fun s => ⟨rfl, ?_⟩⟩
    exact congrArg (fun y => Except.ok (List.zipWith (· + ·) y offset, s)) same
  · intro scale hscale
    obtain ⟨offset, hoffset, hunit⟩ := exists_block_of_pos hb one_pos
    obtain ⟨offset', hoffset', hscaled⟩ := exists_block_of_pos hb hscale
    obtain rfl : offset = offset' := Except.ok.inj (hoffset.symm.trans hoffset')
    refine ⟨_, _, hunit, hscaled, fun now => ⟨_, fun s => ⟨rfl, ?_⟩⟩⟩
    have same := lookup_stretched hscale ⟨cells.map (Table.rowOf 1)⟩ k.smoothness k.extrapolation
      now
    rw [← Table.stretched_rows] at same
    exact congrArg (fun y => Except.ok (List.zipWith (· + ·) y offset, s)) same

/-- A table over three hours that jumps at its end: at an hour and a half, one repetition later and
two earlier, and with its times in seconds. -/
theorem repeats_and_stretches_hours :
    ∃ (t : Table Rat) (b unit scaled : Block Rat Unit Unit (List Rat)),
      Table.parse "RealTimeTable" [[0, 0], [1, 2], [3, 6], [3, 7]] 1 = .ok t ∧
        block [[0, 0], [1, 2], [3, 6], [3, 7]] .standard = .ok b ∧
        b.call ⟨3 / 2 + (1 : ℤ) * 3, ()⟩ () = .ok ([3], ()) ∧
        b.call ⟨3 / 2 + (-2 : ℤ) * 3, ()⟩ () = .ok ([3], ()) ∧
        block [[0, 0], [1, 2], [3, 6], [3, 7]] .standard = .ok unit ∧
        block [[0, 0], [1, 2], [3, 6], [3, 7]] ⟨.linear, .periodic, none, 3600⟩ = .ok scaled ∧
        unit.call ⟨3 / 2, ()⟩ () = .ok ([3], ()) ∧
        scaled.call ⟨3600 * (3 / 2), ()⟩ () = .ok ([3], ()) := by
  let t : Table Rat := ⟨[⟨0, [0]⟩, ⟨1, [2]⟩, ⟨3, [6]⟩, ⟨3, [7]⟩]⟩
  have ht : Table.parse "RealTimeTable" [[0, 0], [1, 2], [3, 6], [3, 7]] (1 : Rat) = .ok t := by
    decide +kernel
  have hb : block [[0, 0], [1, 2], [3, 6], [3, 7]] .standard =
      .ok (.source "RealTimeTable" fun now =>
        .ok (List.zipWith (· + ·) (lookup t .linear .periodic now) [0])) :=
    block_eq_ok_iff.2 ⟨t, [0], ht, rfl, rfl⟩
  have value : List.zipWith (· + ·) (lookup t .linear .periodic (3 / 2)) [0] = [3] := by
    decide +kernel
  obtain ⟨repeats, stretches⟩ := repeats_and_stretches hb ht
  obtain ⟨unit, scaled, hunit, hscaled, same⟩ := stretches 3600 (by decide +kernel)
  obtain ⟨y, hy⟩ := same (3 / 2)
  obtain rfl : _ = unit := Except.ok.inj (hb.symm.trans hunit)
  obtain rfl : [3] = y :=
    value.symm.trans (congrArg Prod.fst (Except.ok.inj (hy ()).1))
  have repeated (m : ℤ) (hm : (3 / 2 + m * 3 : Rat) ≠ 3) :
      (Block.source "RealTimeTable" fun now =>
        .ok (List.zipWith (· + ·) (lookup t .linear .periodic now) [0])).call
          ⟨3 / 2 + m * 3, ()⟩ () = .ok ([3], ()) := by
    have range : t.stamp t.last - t.stamp 0 = 3 := by decide +kernel
    obtain ⟨z, hz⟩ := repeats rfl (3 / 2) (by decide +kernel) (by decide +kernel) m
      (by rwa [range])
    rw [range] at hz
    obtain rfl : [3] = z := value.symm.trans (congrArg Prod.fst (Except.ok.inj (hz ()).1))
    exact (hz ()).2
  exact ⟨t, _, _, scaled, ht, hb, repeated 1 (by decide +kernel), repeated (-2) (by decide +kernel),
    hunit, hscaled, (hy ()).1, (hy ()).2⟩

end Interpolation

end ControlBlocks

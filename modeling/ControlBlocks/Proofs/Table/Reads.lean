import ControlBlocks.Numeric.Binary64
import ControlBlocks.Proofs.Table.Recurrence
import ControlBlocks.Proofs.Table.Segments
import Mathlib.Data.Nat.PSub

/-!
# The rows that a table reads

Which rows a table reads when it is looked up, and how many values it gives.

* `Table.stamp?`, `values?`, `last?` — what a table has at a place, if there is such a place;
* `Interpolation.lookup?` — the values at a time, unless a row is read that is not there;
* `Table.Reads` — nothing is read that is not there, and there is a value for each column;
* `Interpolation.reads_lookup` — so it is in every way that a table is looked up;
* `Table.Periodic.reads_valuesAt` — so it is in a table that repeats;
* `reads_inside` — the same of the blocks, at every time in floating point.

No order of the stamps or of the times is used: either may be no number.
-/

set_option autoImplicit false

namespace ControlBlocks

variable {α : Type} [Scalar α]

/-! ## Reading with a check -/

namespace Table

/-- The time stamp of a row that there is. -/
def stamp? (t : Table α) (i : ℕ) : Option α := t.rows[i]?.map Row.stamp

/-- The values of a row that there is. -/
def values? (t : Table α) (i : ℕ) : Option (List α) := t.rows[i]?.map Row.values

/-- The place of the last row, if there is one. -/
def last? (t : Table α) : Option ℕ := t.rows.length.ppred

end Table

namespace Interpolation

/-- The values at a time within the range. -/
def within? (table : Table α) (smoothness : Smoothness) (t : α) : Option (List α) := do
  let i := (table.rowAtOrBefore? t).getD 0
  let last ← table.last?
  if smoothness = .constant ∨ last = 0 then table.values? i
  else do
    let i := min i (← last.ppred)
    let span := (← table.stamp? (i + 1)) - (← table.stamp? i)
    if span ≤ 0 then table.values? i
    else do
      let v₀ ← table.values? i
      let v₁ ← table.values? (i + 1)
      return lerp v₀ v₀ v₁ ((t - (← table.stamp? i)) / span)

/-- The distance between the stamps of two rows that follow each other; none between a row and
itself. -/
def span? (table : Table α) (last i : ℕ) : Option α :=
  if last = 0 then some 0 else return (← table.stamp? (i + 1)) - (← table.stamp? i)

/-- The values on the line through the two rows at one end of the table. -/
def continued? (table : Table α) (fromEnd : ℕ) (t : α) : Option (List α) := do
  let last ← table.last?
  let i ← (if fromEnd = 0 then some 0 else last.ppred)
  let span ← span? table last i
  if span ≤ 0 then table.values? fromEnd
  else do
    let base ← table.values? fromEnd
    let v₀ ← table.values? i
    let v₁ ← table.values? (i + 1)
    return lerp base v₀ v₁ ((t - (← table.stamp? fromEnd)) / span)

/-- The values at a time, before the offset. -/
def lookup? (table : Table α) (smoothness : Smoothness) (extrapolation : Extrapolation) (t : α) :
    Option (List α) := do
  let last ← table.last?
  let first ← table.stamp? 0
  let final ← table.stamp? last
  if t < first ∨ final < t then
    let nearEnd := if t < first then 0 else last
    match extrapolation with
    | .holdLastPoint => table.values? nearEnd
    | .lastTwoPoints => continued? table nearEnd t
    | .periodic =>
      let range := final - first
      if range ≤ 0 then table.values? nearEnd
      else within? table smoothness (first + Scalar.floorMod (t - first) range)
  else within? table smoothness t

end Interpolation

/-! ## Rows that are there -/

namespace Table

variable {t : Table α} {i : ℕ}

/-- What is read is there, and has a value for each column. -/
def Reads (t : Table α) (read? : Option (List α)) (y : List α) : Prop :=
  read? = some y ∧ y.length = t.columns

theorem stamp?_eq_some (hi : i < t.rows.length) : t.stamp? i = some (t.stamp i) := by
  simp [stamp?, stamp, row, hi]

theorem values?_eq_some (hi : i < t.rows.length) : t.values? i = some (t.values i) := by
  simp [values?, values, row, hi]

theorem ppred_eq_some {n : ℕ} (hn : 0 < n) : n.ppred = some (n - 1) := by
  cases n with
  | zero => exact absurd hn (lt_irrefl 0)
  | succ n => rfl

namespace Rectangular

variable (h : t.Rectangular)
include h

theorem last?_eq_some : t.last? = some t.last := ppred_eq_some h.nonempty

theorem reads_values (hi : i < t.rows.length) : t.Reads (t.values? i) (t.values i) :=
  ⟨values?_eq_some hi, h.columns i hi⟩

end Rectangular

end Table

namespace Interpolation

variable {t : Table α} {time : α}

section Lookup

variable (h : t.Rectangular)
include h

/-- A line between rows that are there has a value for each column. -/
theorem reads_lerp {m i k : ℕ} (hm : m < t.rows.length) (hi : i < t.rows.length)
    (hk : k < t.rows.length) (fraction : α) :
    t.Reads (some (lerp (t.values m) (t.values i) (t.values k) fraction))
      (lerp (t.values m) (t.values i) (t.values k) fraction) :=
  ⟨rfl, by simp [lerp, h.columns m hm, h.columns i hi, h.columns k hk]⟩

/-- A segment that is read begins before the last row. -/
theorem reads_within (smoothness : Smoothness) (time : α) :
    t.Reads (within? t smoothness time) (within t smoothness time) := by
  have found := Table.getD_rowAtOrBefore?_lt h.nonempty time
  have final := h.last_lt
  simp only [within?, within, h.last?_eq_some, Option.bind_eq_bind, Option.bind_some]
  by_cases hstep : smoothness = .constant ∨ t.last = 0
  · rw [if_pos hstep, if_pos hstep]
    exact h.reads_values found
  · have several : 0 < t.last := Nat.pos_of_ne_zero fun hlast => hstep (.inr hlast)
    rw [if_neg hstep, if_neg hstep, Table.ppred_eq_some several, Option.bind_some]
    have start : min ((t.rowAtOrBefore? time).getD 0) (t.last - 1) < t.rows.length := by omega
    have finish : min ((t.rowAtOrBefore? time).getD 0) (t.last - 1) + 1 < t.rows.length := by omega
    simp only [Table.stamp?_eq_some start, Table.stamp?_eq_some finish,
      Table.values?_eq_some start, Table.values?_eq_some finish, Option.bind_some]
    split
    · exact ⟨rfl, h.columns _ start⟩
    · exact reads_lerp h start start finish _

/-- At the first row the segment after it is read, at the last row the one before; where they are
the same row, none is. -/
theorem reads_continued (hzero : (0 : α) ≤ 0) {fromEnd : ℕ}
    (hend : fromEnd = 0 ∨ fromEnd = t.last) (time : α) :
    t.Reads (continued? t fromEnd time) (continued t fromEnd time) := by
  have final := h.last_lt
  have inside : fromEnd < t.rows.length := by
    rcases hend with rfl | rfl
    · exact h.nonempty
    · exact final
  have begins : (if fromEnd = 0 then some 0 else t.last.ppred) =
      some (if fromEnd = 0 then 0 else t.last - 1) := by
    split
    · rfl
    · exact Table.ppred_eq_some (by omega)
  simp only [continued?, continued, h.last?_eq_some, begins, Option.bind_eq_bind, Option.bind_some]
  generalize hi : (if fromEnd = 0 then 0 else t.last - 1) = i
  by_cases single : t.last = 0
  · -- the distance is zero, so no second row is read
    simp only [span?, if_pos single, Option.bind_some, if_pos hzero]
    exact h.reads_values inside
  · have next : i + 1 < t.rows.length := by
      unfold Table.last at single hi hend
      split at hi <;> omega
    have start : i < t.rows.length := (Nat.lt_succ_self i).trans next
    simp only [span?, if_neg single, Table.stamp?_eq_some start, Table.stamp?_eq_some next,
      Table.stamp?_eq_some inside, Table.values?_eq_some start, Table.values?_eq_some next,
      Table.values?_eq_some inside, Option.bind_eq_bind, Option.bind_some, Option.pure_def]
    split
    · exact ⟨rfl, h.columns _ inside⟩
    · exact reads_lerp h inside start next _

theorem reads_lookup (hzero : (0 : α) ≤ 0) (smoothness : Smoothness)
    (extrapolation : Extrapolation) (time : α) :
    t.Reads (lookup? t smoothness extrapolation time) (lookup t smoothness extrapolation time) := by
  have final := h.last_lt
  have nearEnd : (if time < t.stamp 0 then 0 else t.last) < t.rows.length := by
    split
    · exact h.nonempty
    · exact final
  simp only [lookup?, lookup, h.last?_eq_some, Table.stamp?_eq_some h.nonempty,
    Table.stamp?_eq_some final, Option.bind_eq_bind, Option.bind_some]
  by_cases outside : time < t.stamp 0 ∨ t.stamp t.last < time
  · rw [if_pos outside, if_pos outside]
    cases extrapolation with
    | holdLastPoint => exact h.reads_values nearEnd
    | lastTwoPoints =>
      refine reads_continued h hzero ?_ time
      split
      · exact .inl rfl
      · exact .inr rfl
    | periodic =>
      dsimp only
      split
      · exact h.reads_values nearEnd
      · exact reads_within h smoothness _
  · rw [if_neg outside, if_neg outside]
    exact reads_within h smoothness time

end Lookup

end Interpolation

/-! ## Tables that repeat -/

namespace Table.Periodic

/-- The integers are read in a row that is there, and are as many as the cells leave beside the
stamp. -/
theorem reads_valuesAt {block : String} {cells : List (List α)} {scale period : α}
    {p : Periodic α} (h : parse block cells scale period = .ok p) (time : α) :
    p.values[p.place time]? = some (p.valuesAt time) ∧
      ∀ c ∈ cells, (p.valuesAt time).length + 1 = c.length := by
  obtain ⟨-, htable, -, -, hvalues, -⟩ := parse_eq_ok_iff.1 h
  obtain ⟨rectangular, -, width⟩ := rectangular_of_parse htable
  have each := mapM_eq_ok_iff.1 hvalues
  have found : p.place time < p.table.rows.length :=
    getD_rowAtOrBefore?_lt rectangular.nonempty _
  have filled : p.place time < p.values.length := each.length_eq ▸ found
  have given : p.values[p.place time]? = some (p.valuesAt time) := by
    simp [valuesAt, filled]
  have row := mapM_eq_ok_iff.1 (each.get found filled)
  have same : p.valuesAt time = p.values[p.place time] := by
    simp [valuesAt, filled]
  have columns := calc (p.valuesAt time).length
    _ = (p.table.rows[p.place time].values).length := by
        rw [same]
        exact row.length_eq.symm
    _ = (p.table.values (p.place time)).length := by rw [Table.values, row_of_lt found]
    _ = p.table.columns := rectangular.columns _ found
  exact ⟨given, fun c hc => columns ▸ width c hc⟩

end Table.Periodic

/-! ## The blocks -/

section Blocks

open Table Interpolation

/-- **Nothing is read outside a table.**  Of an interpolated table, a table of integers and a table
of truth values that could be built, at every time: each row that is read is one of the table, and
the block gives as many values as a row of cells has beside its stamp. -/
theorem reads_inside (cells : List (List Float)) :
    (∀ (c : Config Float) (b : Block Float Unit Unit (List Float)),
      Interpolation.block cells c = .ok b →
        ∃ t added, Table.parse "RealTimeTable" cells c.scale = .ok t ∧
          offsets t c.offset = .ok added ∧ ∀ now, ∃ y z,
            lookup? t c.smoothness c.extrapolation now = some y ∧
              z = List.zipWith (· + ·) y added ∧ (∀ s, b.call ⟨now, ()⟩ s = .ok (z, s)) ∧
              ∀ row ∈ cells, y.length + 1 = row.length ∧ z.length + 1 = row.length) ∧
      (∀ (scale period : Float) (b : Block Float Unit Unit (List Int)),
        integers cells scale period = .ok b →
          ∃ p, Periodic.parse "IntegerTimeTable" cells scale period = .ok p ∧ ∀ now, ∃ y,
            p.values[p.place now]? = some y ∧ (∀ s, b.call ⟨now, ()⟩ s = .ok (y, s)) ∧
              ∀ row ∈ cells, y.length + 1 = row.length) ∧
      ∀ (scale period : Float) (b : Block Float Unit Unit (List Bool)),
        booleans cells scale period = .ok b →
          ∃ p, Periodic.parse "TimeTable" cells scale period = .ok p ∧ ∀ now, ∃ y z,
            p.values[p.place now]? = some y ∧ z = y.map (fun v => decide (0 < v)) ∧
              (∀ s, b.call ⟨now, ()⟩ s = .ok (z, s)) ∧
              ∀ row ∈ cells, z.length + 1 = row.length := by
  refine ⟨fun c b hb => ?_, fun scale period b hb => ?_, fun scale period b hb => ?_⟩
  · obtain ⟨t, added, ht, hadded, rfl⟩ := block_eq_ok_iff.1 hb
    obtain ⟨rectangular, -, width⟩ := rectangular_of_parse ht
    refine ⟨t, added, ht, hadded, fun now => ?_⟩
    obtain ⟨read, length⟩ := reads_lookup rectangular (by decide) c.smoothness c.extrapolation now
    refine ⟨_, _, read, rfl, fun _ => rfl, fun row hrow => ?_⟩
    have columns := width row hrow
    have offset := (offsets_eq_ok_iff.1 hadded).2
    refine ⟨by omega, ?_⟩
    rw [List.length_zipWith]
    omega
  · obtain ⟨p, hp, rfl⟩ := map_eq_ok_iff.1 hb
    refine ⟨p, hp, fun now => ?_⟩
    obtain ⟨read, width⟩ := Periodic.reads_valuesAt hp now
    exact ⟨_, read, fun _ => rfl, width⟩
  · unfold booleans at hb
    split at hb
    · obtain ⟨p, hp, rfl⟩ := map_eq_ok_iff.1 hb
      refine ⟨p, hp, fun now => ?_⟩
      obtain ⟨read, width⟩ := Periodic.reads_valuesAt hp now
      refine ⟨_, _, read, rfl, fun _ => rfl, fun row hrow => ?_⟩
      rw [List.length_map]
      exact width row hrow
    · cases hb

/-- One row alone, continued past its end, and a time that is no number. -/
theorem reads_inside_single :
    ∃ (real : Block Float Unit Unit (List Float)) (whole : Block Float Unit Unit (List Int))
      (truth : Block Float Unit Unit (List Bool)),
      Interpolation.block [[0, 1, 1]] ⟨.linear, .lastTwoPoints, none, 1⟩ = .ok real ∧
        integers [[0, 1, 1]] 1 1 = .ok whole ∧ booleans [[0, 1, 1]] 1 1 = .ok truth ∧
          ∀ now ∈ [1, 0 / 0], (∃ y, real.call ⟨now, ()⟩ () = .ok (y, ()) ∧ y.length = 2) ∧
            (∃ y, whole.call ⟨now, ()⟩ () = .ok (y, ()) ∧ y.length = 2) ∧
              ∃ y, truth.call ⟨now, ()⟩ () = .ok (y, ()) ∧ y.length = 2 := by
  obtain ⟨real, whole, truth⟩ := reads_inside [[0, 1, 1]]
  obtain ⟨_, _, -, -, reals⟩ := real ⟨.linear, .lastTwoPoints, none, 1⟩ _ rfl
  obtain ⟨_, -, wholes⟩ := whole 1 1 _ rfl
  obtain ⟨_, -, truths⟩ := truth 1 1 _ rfl
  refine ⟨_, _, _, rfl, rfl, rfl, fun now _ => ?_⟩
  obtain ⟨_, y, -, -, hy, real⟩ := reals now
  obtain ⟨n, -, hn, whole⟩ := wholes now
  obtain ⟨_, v, -, -, hv, truth⟩ := truths now
  refine ⟨⟨y, hy (), ?_⟩, ⟨n, hn (), ?_⟩, ⟨v, hv (), ?_⟩⟩
  · exact Nat.succ.inj (real _ (List.mem_singleton_self _)).2
  · exact Nat.succ.inj (whole _ (List.mem_singleton_self _))
  · exact Nat.succ.inj (truth _ (List.mem_singleton_self _))

end Blocks

end ControlBlocks

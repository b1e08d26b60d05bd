import ControlBlocks.Proofs.Binary64.Overflow
import ControlBlocks.Proofs.Calls.Basic
import ControlBlocks.Proofs.Table.Recurrence

/-!
# Accepted tables in floating point

The entries of a table are checked before its times are multiplied by their unit.  What holds of the
stamps that come of it?

* `Table.Ordered` — the stamps ascend, and bisection finds the last row that a time has reached;
* `Table.WellFormed` — besides, the rows have one width, and the stamps are finite;
* `Table.ordered_of_ascend` — where the stamps ascend, the rows are found;
* `Table.ordered_iff` — in an accepted table they ascend just if all of them are numbers;
* `Table.wellFormed_iff` — it is well formed just if its unit is finite and no product overflows.
-/

set_option autoImplicit false

namespace ControlBlocks.Table

open Binary64

/-! ## What a table ought to be -/

/-- The stamps ascend.  The row that is found is the last one that a time has reached, and there is
none just before the first stamp. -/
structure Ordered (t : Table Float) : Prop where
  ascend : ∀ i j, i ≤ j → j < t.rows.length → t.stamp i ≤ t.stamp j
  found : ∀ time i, t.rowAtOrBefore? time = some i ↔ IsGreatest (t.reached time) i
  missed : ∀ time, IsNumber (valueOf time) → (t.rowAtOrBefore? time = none ↔ time < t.stamp 0)

/-- A row at least, rows of one width with a value at least, and finite stamps in order. -/
structure WellFormed (t : Table Float) : Prop extends t.Rectangular, t.Ordered where
  wide : 0 < t.columns
  finite : ∀ i < t.rows.length, IsFinite (valueOf (t.stamp i))

variable {t : Table Float}

theorem ordered_of_ascend (nonempty : 0 < t.rows.length)
    (ascend : ∀ i j, i ≤ j → j < t.rows.length → t.stamp i ≤ t.stamp j) : t.Ordered := by
  have before (time : Float) (i j : ℕ) (hij : i ≤ j) (hj : j ∈ t.reached time) :
      i ∈ t.reached time :=
    ⟨hij.trans_lt hj.1, float_le_trans (ascend i j hij hj.1) hj.2⟩
  refine ⟨ascend, fun time i => rowAtOrBefore?_eq_some_iff (before time), fun time htime => ?_⟩
  have first : IsNumber (valueOf (t.stamp 0)) := (le_self_iff _).1 (ascend 0 0 le_rfl nonempty)
  rw [rowAtOrBefore?_eq_none_iff (before time), ← float_not_le_iff first htime,
    Set.eq_empty_iff_forall_notMem]
  constructor
  · exact fun none hle => none 0 ⟨nonempty, hle⟩
  · exact fun hle i hi => hle (before time 0 i (Nat.zero_le i) hi).2

/-! ## What an accepted table is -/

section Accepted

variable {block : String} {cells : List (List Float)} {scale : Float}

/-- The first entry of a row is finite, as all of them are. -/
theorem isFinite_time {width : ℕ} {c : List Float} (hwidth : 2 ≤ width) (hc : Regular width c) :
    IsFinite (valueOf (c.headD 0)) := by
  cases c with
  | nil => exact absurd hc.1 (by simp; omega)
  | cons time values => exact (isFinite_iff time).1 (List.all_eq_true.1 hc.2 time (by simp))

/-- The check that no stamp is less than the one before it tells their order just if all are
numbers. -/
theorem ordered_iff (h : Table.parse block cells scale = .ok t) :
    t.Ordered ↔ ∀ i < t.rows.length, IsNumber (valueOf (t.stamp i)) := by
  obtain ⟨⟨nonempty, -⟩, -⟩ := rectangular_of_parse h
  obtain ⟨-, -, -, -, hascend, rfl⟩ := parse_eq_ok_iff.1 h
  refine ⟨fun ordered i hi => (le_self_iff _).1 (ordered.ascend i i le_rfl hi), fun numbers => ?_⟩
  have number {x : Float} (hx : x ∈ cells.map fun c => (rowOf scale c).stamp) :
      IsNumber (valueOf x) := by
    obtain ⟨c, hc, rfl⟩ := List.mem_map.1 hx
    exact (forall_stamp_iff fun x => IsNumber (valueOf x)).1 numbers c hc
  have chain : (cells.map fun c => (rowOf scale c).stamp).IsChain fun s t => ¬ t < s := by
    simpa [Ascends] using hascend
  have sorted : (cells.map fun c => (rowOf scale c).stamp).IsChain (· ≤ ·) :=
    chain.imp_of_mem_imp fun x y hx hy hlt => float_le_of_not_lt (number hy) (number hx) hlt
  apply ordered_of_ascend nonempty
  intro i j hij hj
  rcases hij.lt_or_eq with hlt | rfl
  · exact stamp_rel_of_isChain sorted hlt (by simpa using hj)
  · exact (le_self_iff _).2 (numbers i hj)

/-- **What an accepted table is.**  It has a row, and its rows have one width with a value at least.
Its stamps ascend and its rows are found just if the unit of time is finite or no time is zero.  It
is well formed just if the unit is finite and each time in it is below the middle between the
largest float and the next power of two, from which on a product is rounded to an infinity. -/
theorem wellFormed_iff (h : Table.parse block cells scale = .ok t) :
    t.Rectangular ∧ 0 < t.columns ∧
      (t.Ordered ↔ IsFinite (valueOf scale) ∨ ∀ c ∈ cells, value (c.headD 0) ≠ 0) ∧
      (t.WellFormed ↔ IsFinite (valueOf scale) ∧
        ∀ c ∈ cells, |value (c.headD 0) * value scale| < 2 ^ 1024 - 2 ^ 970) := by
  obtain ⟨rectangular, wide, -⟩ := rectangular_of_parse h
  have ordered := ordered_iff h
  obtain ⟨hscale, hne, hwide, hregular, -, rfl⟩ := parse_eq_ok_iff.1 h
  have finite (c : List Float) (hc : c ∈ cells) : IsFinite (valueOf (c.headD 0)) :=
    isFinite_time hwide (hregular c hc)
  have numbers := calc Ordered ⟨cells.map (rowOf scale)⟩
    _ ↔ ∀ c ∈ cells, IsNumber (valueOf (c.headD 0 * scale)) :=
        ordered.trans (forall_stamp_iff fun x => IsNumber (valueOf x))
    _ ↔ ∀ c ∈ cells, IsFinite (valueOf scale) ∨ value (c.headD 0) ≠ 0 :=
        forall₂_congr fun c hc => isNumber_mul_pos_iff (finite c hc) hscale
    _ ↔ IsFinite (valueOf scale) ∨ ∀ c ∈ cells, value (c.headD 0) ≠ 0 := by
        by_cases hunit : IsFinite (valueOf scale)
        · simp only [hunit, true_or, implies_true]
        · simp only [hunit, false_or]
  have stamps := calc
    (∀ i < (cells.map (rowOf scale)).length,
        IsFinite (valueOf (stamp ⟨cells.map (rowOf scale)⟩ i)))
    _ ↔ ∀ c ∈ cells, IsFinite (valueOf (c.headD 0 * scale)) :=
        forall_stamp_iff fun x => IsFinite (valueOf x)
    _ ↔ ∀ c ∈ cells, IsFinite (valueOf scale) ∧
          |value (c.headD 0) * value scale| < 2 ^ 1024 - 2 ^ 970 :=
        forall₂_congr fun c hc => isFinite_mul_pos_iff (finite c hc) hscale
    _ ↔ IsFinite (valueOf scale) ∧
          ∀ c ∈ cells, |value (c.headD 0) * value scale| < 2 ^ 1024 - 2 ^ 970 := by
        obtain ⟨c, hc⟩ := List.exists_mem_of_ne_nil cells hne
        exact ⟨fun h => ⟨(h c hc).1, fun c hc => (h c hc).2⟩, fun h c hc => ⟨h.1, h.2 c hc⟩⟩
  refine ⟨rectangular, wide, numbers, fun wellFormed => stamps.1 wellFormed.finite, fun h => ?_⟩
  exact ⟨rectangular, numbers.2 (.inl h.1), wide, stamps.2 h⟩

end Accepted

/-- Two tables in a large unit: in the second one a time overflows, and its rows are found all the
same. -/
theorem wellFormed_large :
    ∃ t t' : Table Float,
      Table.parse "RealTimeTable" [[0, 1], [1e8, 2]] (1e300 : Float) = .ok t ∧ t.WellFormed ∧
        Table.parse "RealTimeTable" [[0, 1], [1e9, 2]] (1e300 : Float) = .ok t' ∧ t'.Ordered ∧
          ¬ t'.WellFormed := by
  -- named, so that only the kernel evaluates it
  obtain ⟨unit, hunit⟩ : ∃ unit : Float, unit = 1e300 := ⟨_, rfl⟩
  rw [← hunit]
  have small : Table.parse "RealTimeTable" [[0, 1], [1e8, 2]] unit =
      .ok ⟨[[0, 1], [1e8, 2]].map (rowOf unit)⟩ := by
    rw [hunit]
    decide +kernel
  have large : Table.parse "RealTimeTable" [[0, 1], [1e9, 2]] unit =
      .ok ⟨[[0, 1], [1e9, 2]].map (rowOf unit)⟩ := by
    rw [hunit]
    decide +kernel
  have finite : IsFinite (valueOf unit) := by
    rw [← isFinite_iff, hunit]
    decide +kernel
  have below {x : Float} (hx : Scalar.isFinite x = true)
      (hproduct : Scalar.isFinite (x * 1e300) = true) :
      |value x * value unit| < 2 ^ 1024 - 2 ^ 970 := by
    rw [← hunit] at hproduct
    exact (isFinite_mul_iff ((isFinite_iff x).1 hx) finite).1 ((isFinite_iff _).1 hproduct)
  have first : |value 0 * value unit| < 2 ^ 1024 - 2 ^ 970 :=
    below (by decide +kernel) (by decide +kernel)
  have second : |value 1e8 * value unit| < 2 ^ 1024 - 2 ^ 970 :=
    below (by decide +kernel) (by decide +kernel)
  have overflows : ¬ Scalar.isFinite (1e9 * unit) = true := by
    rw [hunit]
    decide +kernel
  obtain ⟨-, -, -, wellFormed⟩ := wellFormed_iff small
  obtain ⟨-, -, ordered, -⟩ := wellFormed_iff large
  refine ⟨_, _, small, wellFormed.2 ⟨finite, ?_⟩, large, ordered.2 (.inl finite), ?_⟩
  · exact List.forall_mem_cons.2 ⟨first, List.forall_mem_singleton.2 second⟩
  · exact fun h => overflows ((isFinite_iff _).2 (h.finite 1 Nat.one_lt_two))

/-- Rows at the times 0, 0 and -1, in an infinite unit. -/
def endless : Periodic Float :=
  ⟨⟨[⟨0 / 0, [10]⟩, ⟨0 / 0, [20]⟩, ⟨-1 / 0, [30]⟩]⟩, [[10], [20], [30]], 1⟩

theorem parse_endless :
    Periodic.parse "IntegerTimeTable" [[0, 10], [0, 20], [-1, 30]] (1 / 0) 1 = .ok endless :=
  Periodic.parse_eq_ok_iff.2 ⟨by decide +kernel, by decide +kernel, by decide +kernel,
    by decide +kernel, by decide +kernel, rfl⟩

/-- In an infinite unit the time zero makes a stamp that is no number.  At the start the last row is
the only one that is reached, and yet none is found and the first one is given. -/
theorem exists_row_not_found :
    ∃ (t : Table Float) (b : Block Float Unit Unit (List Int)),
      Table.parse "IntegerTimeTable" [[0, 10], [0, 20], [-1, 30]] (1 / 0) = .ok t ∧
        integers [[0, 10], [0, 20], [-1, 30]] (1 / 0) 1 = .ok b ∧
          ¬ IsNumber (valueOf (t.stamp 0)) ∧ IsGreatest (t.reached stampTolerance) 2 ∧
            t.rowAtOrBefore? stampTolerance = none ∧ b.call ⟨0, ()⟩ () = .ok ([10], ()) := by
  refine ⟨endless.table, _, (Periodic.parse_eq_ok_iff.1 parse_endless).2.1,
    map_eq_ok_iff.2 ⟨endless, parse_endless, rfl⟩, not_not_intro rfl,
    ⟨⟨by decide, by decide +kernel⟩, fun i hi => Nat.le_of_lt_succ hi.1⟩, by decide +kernel, ?_⟩
  exact congrArg (fun y => Except.ok (y, ())) (by decide +kernel : endless.valuesAt 0 = [10])

end ControlBlocks.Table

import ControlBlocks.Proofs.Exact.Scalar
import ControlBlocks.Proofs.Table.Stamps
import Mathlib.Analysis.Convex.Basic
import Mathlib.Data.Finset.Max
import Mathlib.Tactic.FieldSimp
import Mathlib.Tactic.Ring

/-!
# Interpolated tables between and beyond their stamps

What a table with two rows at least and no two stamps alike gives at any time.

* `Table.line` — the line through two rows; `Table.Sound.line_meets` — where two of them meet;
* `Table.Covers` — values that lie between the least and the greatest of their columns;
* `Table.Between.covers` — so do values that lie between two rows;
* `Interpolates` — what a table ought to give between its stamps and outside its range;
* `Interpolates.between` — that lies between two rows, unless the last two rows are continued;
* `interpolates_lookup` — a table does give that; `interpolates_exact` — the same of the block.
-/

set_option autoImplicit false

namespace ControlBlocks

namespace Table

variable {t : Table Rat} {time : Rat} {i j k : ℕ}

/-! ## Entries and lines -/

/-- The value in a row and a column. -/
def entry (t : Table Rat) (i j : ℕ) : Rat := (t.values i).getD j 0

/-- The values in a column. -/
def column (t : Table Rat) (j : ℕ) : Finset Rat :=
  (Finset.range t.rows.length).image fun i => t.entry i j

/-- The line through the rows `i` and `k`, at a time. -/
def line (t : Table Rat) (i k : ℕ) (time : Rat) : List Rat :=
  (List.range t.columns).map fun j =>
    t.entry i j + (time - t.stamp i) / (t.stamp k - t.stamp i) * (t.entry k j - t.entry i j)

/-- No two stamps are alike. -/
def Separated (t : Table Rat) : Prop := ∀ i < t.last, t.stamp i < t.stamp (i + 1)

theorem lt_length_of_le_last (hlast : 0 < t.last) (hi : i ≤ t.last) : i < t.rows.length := by
  unfold last at hlast hi
  omega

theorem Sound.values_eq (h : t.Sound) (hi : i < t.rows.length) :
    t.values i = (List.range t.columns).map (t.entry i) := by
  apply List.ext_getElem
  · simp [h.columns i hi]
  · intro j hj hj'
    simp [entry, hj]

theorem length_line (t : Table Rat) (i k : ℕ) (time : Rat) :
    (t.line i k time).length = t.columns := by
  simp [line]

theorem getD_line (hj : j < t.columns) (i k : ℕ) (time : Rat) :
    (t.line i k time).getD j 0 = t.entry i j +
      (time - t.stamp i) / (t.stamp k - t.stamp i) * (t.entry k j - t.entry i j) := by
  simp [line, hj]

/-- A line begins at its first row. -/
theorem Sound.line_stamp_left (h : t.Sound) (hi : i < t.rows.length) (k : ℕ) :
    t.line i k (t.stamp i) = t.values i := by
  simp [line, h.values_eq hi]

/-- A line ends at its second row. -/
theorem Sound.line_stamp_right (h : t.Sound) (hk : k < t.rows.length)
    (hstamps : t.stamp i < t.stamp k) : t.line i k (t.stamp k) = t.values k := by
  have span : t.stamp k - t.stamp i ≠ 0 := (sub_pos.2 hstamps).ne'
  simp [line, h.values_eq hk, div_self span]

/-- The lines on both sides of a row meet in it. -/
theorem Sound.line_meets (h : t.Sound) (hs : t.Separated) (hi : i + 1 < t.last) :
    t.line i (i + 1) (t.stamp (i + 1)) = t.values (i + 1) ∧
      t.line (i + 1) (i + 2) (t.stamp (i + 1)) = t.values (i + 1) := by
  have row : i + 1 < t.rows.length := lt_length_of_le_last (by omega) hi.le
  exact ⟨h.line_stamp_right row (hs i (by omega)), h.line_stamp_left row _⟩

/-! ## Columns -/

/-- Each of the values lies between the least and the greatest of its column. -/
def Covers (t : Table Rat) (y : List Rat) : Prop :=
  ∀ j < t.columns, ∃ lo hi, IsLeast (t.column j : Set Rat) lo ∧
    IsGreatest (t.column j : Set Rat) hi ∧ y.getD j 0 ∈ Set.Icc lo hi

theorem entry_mem_column (hi : i < t.rows.length) (j : ℕ) : t.entry i j ∈ t.column j :=
  Finset.mem_image_of_mem _ (Finset.mem_range.2 hi)

/-- What lies between any bounds of a column lies between its least and its greatest value. -/
theorem Sound.covers_of_bounds (h : t.Sound) {y : List Rat}
    (hy : ∀ j < t.columns, ∀ lo hi, (∀ i < t.rows.length, t.entry i j ∈ Set.Icc lo hi) →
      y.getD j 0 ∈ Set.Icc lo hi) : t.Covers y := by
  intro j hj
  have filled : (t.column j).Nonempty := ⟨_, entry_mem_column h.nonempty j⟩
  have least := Finset.isLeast_min' _ filled
  have greatest := Finset.isGreatest_max' _ filled
  refine ⟨_, _, least, greatest, hy j hj _ _ fun i hi => ?_⟩
  exact ⟨least.2 (entry_mem_column hi j), greatest.2 (entry_mem_column hi j)⟩

/-- Values on the line through two rows, at a time between the two. -/
def Between (t : Table Rat) (y : List Rat) : Prop :=
  ∃ i < t.rows.length, ∃ k < t.rows.length, ∃ time,
    t.stamp i ≤ time ∧ time ≤ t.stamp k ∧ y = t.line i k time

/-- The values of a row lie on the line from it to itself. -/
theorem Sound.between_values (h : t.Sound) (hi : i < t.rows.length) : t.Between (t.values i) :=
  ⟨i, hi, i, hi, t.stamp i, le_rfl, le_rfl, (h.line_stamp_left hi i).symm⟩

theorem Between.length_eq {y : List Rat} (hy : t.Between y) : y.length = t.columns := by
  obtain ⟨i, -, k, -, time, -, -, rfl⟩ := hy
  exact t.length_line i k time

/-- Between two rows the columns are not left. -/
theorem Between.covers {y : List Rat} (hy : t.Between y) (h : t.Sound) : t.Covers y := by
  obtain ⟨i, hi, k, hk, time, hlow, hhigh, rfl⟩ := hy
  have part : (time - t.stamp i) / (t.stamp k - t.stamp i) ∈ Set.Icc (0 : Rat) 1 := by
    have span : 0 ≤ t.stamp k - t.stamp i := sub_nonneg.2 (hlow.trans hhigh)
    exact ⟨div_nonneg (sub_nonneg.2 hlow) span,
      div_le_one_of_le₀ (sub_le_sub_right hhigh _) span⟩
  refine h.covers_of_bounds fun j hj lo high hbounds => ?_
  have convex : Convex Rat (Set.Icc lo high) := convex_Icc lo high
  rw [getD_line hj, ← smul_eq_mul]
  exact convex.add_smul_sub_mem (hbounds i hi) (hbounds k hk) part

/-! ## The segment of a time -/

/-- What is after the last stamp is not before the first. -/
theorem Sound.not_lt_of_last_lt (h : t.Sound) (hafter : t.stamp t.last < time) :
    ¬ time < t.stamp 0 :=
  not_lt.2 ((h.ascend 0 t.last (Nat.zero_le _) h.last_lt).trans hafter.le)

/-- Between two stamps that follow each other, the earlier row is the last one that is reached. -/
theorem Sound.isGreatest_of_lt_succ (h : t.Sound) (hi : i + 1 < t.rows.length)
    (hlow : t.stamp i ≤ time) (hhigh : time < t.stamp (i + 1)) :
    IsGreatest (t.reached time) i := by
  refine ⟨⟨(Nat.lt_succ_self i).trans hi, hlow⟩, ?_⟩
  rintro k ⟨hk, hreached⟩
  by_contra hlater
  have := h.ascend (i + 1) k (not_le.1 hlater) hk
  linarith

/-- A time within the range lies between two stamps that follow each other. -/
theorem Sound.exists_segment (h : t.Sound) (hlast : 0 < t.last) (hfirst : t.stamp 0 ≤ time)
    (hfinal : time ≤ t.stamp t.last) :
    ∃ i < t.last, t.stamp i ≤ time ∧ time ≤ t.stamp (i + 1) := by
  obtain ⟨i, ⟨hi, hreached⟩, hmax⟩ := h.exists_isGreatest_reached hfirst
  rcases (le_last hi).lt_or_eq with inner | rfl
  · refine ⟨i, inner, hreached, ?_⟩
    by_contra hafter
    have next : i + 1 ∈ t.reached time := ⟨lt_length_of_le_last hlast inner, (not_le.1 hafter).le⟩
    exact absurd (hmax next) (Nat.not_succ_le_self i)
  · have before : t.last - 1 + 1 = t.last := Nat.sub_add_cancel hlast
    refine ⟨t.last - 1, by omega, ?_, by rwa [before]⟩
    exact (h.ascend _ _ (Nat.sub_le _ _) hi).trans hreached

end Table

namespace Interpolation

variable {t : Table Rat} {time : Rat} {i k m : ℕ} {smoothness : Smoothness}
  {extrapolation : Extrapolation}

/-! ## What a table ought to give -/

/-- The values `y` at each time, as a table with two rows at least ought to give them. -/
structure Interpolates (t : Table Rat) (smoothness : Smoothness) (extrapolation : Extrapolation)
    (y : Rat → List Rat) : Prop where
  /-- Between two stamps, those on the line through the two rows. -/
  linear : smoothness = .linear → ∀ i < t.last, ∀ time,
    t.stamp i ≤ time → time ≤ t.stamp (i + 1) → y time = t.line i (i + 1) time
  /-- Or those of the last row that is reached. -/
  constant : smoothness = .constant → ∀ time, t.stamp 0 ≤ time → time ≤ t.stamp t.last →
    ∃ i, IsGreatest (t.reached time) i ∧ y time = t.values i
  /-- Outside the range, those of the nearer end. -/
  held : extrapolation = .holdLastPoint →
    (∀ time, time < t.stamp 0 → y time = t.values 0) ∧
      ∀ time, t.stamp t.last < time → y time = t.values t.last
  /-- Or those on the line through the nearest two rows. -/
  continued : extrapolation = .lastTwoPoints →
    (∀ time, time < t.stamp 0 → y time = t.line 0 1 time) ∧
      ∀ time, t.stamp t.last < time → y time = t.line (t.last - 1) t.last time
  /-- Or those at a time within the range, a whole number of repetitions earlier or later. -/
  repeated : extrapolation = .periodic → ∀ time, time < t.stamp 0 ∨ t.stamp t.last < time →
    ∃ m : ℤ, ∃ wrapped, time = wrapped + m * (t.stamp t.last - t.stamp 0) ∧
      t.stamp 0 ≤ wrapped ∧ wrapped < t.stamp t.last ∧ y time = y wrapped

section Between

variable {y : Rat → List Rat}

theorem Interpolates.between_within (hy : Interpolates t smoothness extrapolation y) (h : t.Sound)
    (hlast : 0 < t.last) (hfirst : t.stamp 0 ≤ time) (hfinal : time ≤ t.stamp t.last) :
    t.Between (y time) := by
  cases smoothness with
  | linear =>
    obtain ⟨i, hi, hlow, hhigh⟩ := h.exists_segment hlast hfirst hfinal
    exact ⟨i, Table.lt_length_of_le_last hlast hi.le, i + 1, Table.lt_length_of_le_last hlast hi,
      time, hlow, hhigh, hy.linear rfl i hi time hlow hhigh⟩
  | constant =>
    obtain ⟨i, hi, hvalues⟩ := hy.constant rfl time hfirst hfinal
    rw [hvalues]
    exact h.between_values hi.1.1

/-- Where the table is repeated or its ends are held, the values lie between two rows at any
time. -/
theorem Interpolates.between (hy : Interpolates t smoothness extrapolation y) (h : t.Sound)
    (hlast : 0 < t.last) (hext : extrapolation ≠ .lastTwoPoints) (time : Rat) :
    t.Between (y time) := by
  by_cases houtside : time < t.stamp 0 ∨ t.stamp t.last < time
  · cases extrapolation with
    | periodic =>
      obtain ⟨m, wrapped, -, hfirst, hfinal, hwrap⟩ := hy.repeated rfl time houtside
      rw [hwrap]
      exact hy.between_within h hlast hfirst hfinal.le
    | holdLastPoint =>
      obtain ⟨before, after⟩ := hy.held rfl
      rcases houtside with hbefore | hafter
      · rw [before time hbefore]
        exact h.between_values h.nonempty
      · rw [after time hafter]
        exact h.between_values h.last_lt
    | lastTwoPoints => exact absurd rfl hext
  · rw [not_or, not_lt, not_lt] at houtside
    exact hy.between_within h hlast houtside.1 houtside.2

/-- There is one value for each column. -/
theorem Interpolates.length_eq (hy : Interpolates t smoothness extrapolation y) (h : t.Sound)
    (hlast : 0 < t.last) (time : Rat) : (y time).length = t.columns := by
  by_cases hext : extrapolation = .lastTwoPoints
  · obtain ⟨before, after⟩ := hy.continued hext
    rcases lt_or_ge time (t.stamp 0) with hbefore | hfirst
    · rw [before time hbefore, t.length_line]
    · rcases lt_or_ge (t.stamp t.last) time with hafter | hfinal
      · rw [after time hafter, t.length_line]
      · exact (hy.between_within h hlast hfirst hfinal).length_eq
  · exact (hy.between h hlast hext time).length_eq

end Between

/-! ## What a table gives -/

section Lookup

variable (h : t.Sound)
include h

theorem lerp_values (hm : m < t.rows.length) (hi : i < t.rows.length) (hk : k < t.rows.length)
    (fraction : Rat) :
    lerp (t.values m) (t.values i) (t.values k) fraction = (List.range t.columns).map fun j =>
      t.entry m j + fraction * (t.entry k j - t.entry i j) := by
  apply List.ext_getElem
  · simp [lerp, h.columns m hm, h.columns i hi, h.columns k hk]
  · intro j hj hj'
    simp [lerp, h.values_eq hm, h.values_eq hi, h.values_eq hk]

/-- Interpolated within the range, a table gives the segment of the last row that is reached; at the
last row that is the segment before it. -/
theorem within_linear (hs : t.Separated) (hlast : 0 < t.last) (hi : IsGreatest (t.reached time) i) :
    within t .linear time =
      t.line (min i (t.last - 1)) (min i (t.last - 1) + 1) time := by
  have row : t.rowAtOrBefore? time = some i := h.rowAtOrBefore?_eq_some_iff.2 hi
  have inner : min i (t.last - 1) < t.last := by omega
  have span : ¬ t.stamp (min i (t.last - 1) + 1) - t.stamp (min i (t.last - 1)) ≤ 0 :=
    not_le.2 (sub_pos.2 (hs _ inner))
  have several : ¬ (Smoothness.linear = .constant ∨ t.last = 0) := by simp [hlast.ne']
  have start := Table.lt_length_of_le_last hlast inner.le
  have finish := Table.lt_length_of_le_last hlast inner
  simp only [within, row, Option.getD_some, if_neg several, if_neg span]
  rw [lerp_values h start start finish]
  rfl

/-- Between two stamps, a table that is interpolated gives the line through their rows.  At the
later stamp the next segment is looked up, if there is one, which begins there. -/
theorem within_segment (hs : t.Separated) (hi : i < t.last) (hlow : t.stamp i ≤ time)
    (hhigh : time ≤ t.stamp (i + 1)) : within t .linear time = t.line i (i + 1) time := by
  have hlast : 0 < t.last := (Nat.zero_le i).trans_lt hi
  have next := Table.lt_length_of_le_last hlast hi
  rcases hhigh.lt_or_eq with inside | rfl
  · have same : min i (t.last - 1) = i := by omega
    rw [within_linear h hs hlast (h.isGreatest_of_lt_succ next hlow inside), same]
  · by_cases hend : i + 1 = t.last
    · have same : min t.last (t.last - 1) = i := by omega
      rw [hend, within_linear h hs hlast (h.isGreatest_last le_rfl), same, hend]
    · have inner : i + 1 < t.last := by omega
      have same : min (i + 1) (t.last - 1) = i + 1 := by omega
      have following := Table.lt_length_of_le_last hlast inner
      obtain ⟨ends, begins⟩ := h.line_meets hs inner
      rw [within_linear h hs hlast (h.isGreatest_of_lt_succ following le_rfl (hs _ inner)), same,
        begins, ends]

theorem within_constant (hi : IsGreatest (t.reached time) i) :
    within t .constant time = t.values i := by
  simp [within, h.rowAtOrBefore?_eq_some_iff.2 hi]

/-- Before its first stamp, the first segment is continued. -/
theorem continued_first (hs : t.Separated) (hlast : 0 < t.last) :
    continued t 0 time = t.line 0 1 time := by
  have span : ¬ t.stamp 1 - t.stamp 0 ≤ 0 := not_le.2 (sub_pos.2 (hs 0 hlast))
  simp only [continued, if_true, if_neg hlast.ne', Nat.zero_add, if_neg span]
  rw [lerp_values h h.nonempty h.nonempty (Table.lt_length_of_le_last hlast hlast)]
  rfl

/-- After its last stamp, the last segment is continued.  It is followed from its end, which comes
to the same. -/
theorem continued_last (hs : t.Separated) (hlast : 0 < t.last) :
    continued t t.last time = t.line (t.last - 1) t.last time := by
  have before : t.last - 1 + 1 = t.last := Nat.sub_add_cancel hlast
  have climbs := hs (t.last - 1) (by omega)
  rw [before] at climbs
  have positive : 0 < t.stamp t.last - t.stamp (t.last - 1) := sub_pos.2 climbs
  have start := Table.lt_length_of_le_last hlast (Nat.sub_le t.last 1)
  simp only [continued, if_neg hlast.ne', before, if_neg (not_le.2 positive)]
  rw [lerp_values h h.last_lt start h.last_lt, Table.line]
  refine List.map_congr_left fun j _ => ?_
  field_simp
  ring

end Lookup

theorem lookup_within (hfirst : t.stamp 0 ≤ time) (hfinal : time ≤ t.stamp t.last) :
    lookup t smoothness extrapolation time = within t smoothness time := by
  have inside : ¬ (time < t.stamp 0 ∨ t.stamp t.last < time) :=
    not_or.2 ⟨not_lt.2 hfirst, not_lt.2 hfinal⟩
  simp only [lookup, if_neg inside]

/-- Outside its range, a table that is repeated is looked up at a time within the range. -/
theorem lookup_wrapped (hrange : t.stamp 0 < t.stamp t.last)
    (houtside : time < t.stamp 0 ∨ t.stamp t.last < time) :
    lookup t smoothness .periodic time = within t smoothness
      (t.stamp 0 + Scalar.floorMod (time - t.stamp 0) (t.stamp t.last - t.stamp 0)) := by
  simp only [lookup, if_pos houtside, if_neg (not_le.2 (sub_pos.2 hrange))]

/-- Outside its range, a table that is repeated gives what it gives some repetitions earlier or
later. -/
theorem lookup_periodic (hrange : t.stamp 0 < t.stamp t.last)
    (houtside : time < t.stamp 0 ∨ t.stamp t.last < time) :
    ∃ m : ℤ, ∃ wrapped, time = wrapped + m * (t.stamp t.last - t.stamp 0) ∧
      t.stamp 0 ≤ wrapped ∧ wrapped < t.stamp t.last ∧
        lookup t smoothness .periodic time = lookup t smoothness .periodic wrapped := by
  have positive : 0 < t.stamp t.last - t.stamp 0 := sub_pos.2 hrange
  obtain ⟨m, hm⟩ := Scalar.exists_add_floorMod (time - t.stamp 0) (t.stamp t.last - t.stamp 0)
  have low := Scalar.floorMod_nonneg positive (time - t.stamp 0)
  have high := Scalar.floorMod_lt positive (time - t.stamp 0)
  refine ⟨m, _, ?_, ?_, ?_, (lookup_wrapped hrange houtside).trans (lookup_within ?_ ?_).symm⟩
  all_goals linarith

/-- A table with two rows at least and no two stamps alike gives what it ought to. -/
theorem interpolates_lookup (h : t.Sound) (hs : t.Separated) (hlast : 0 < t.last)
    (smoothness : Smoothness) (extrapolation : Extrapolation) :
    Interpolates t smoothness extrapolation (lookup t smoothness extrapolation) where
  linear := by
    rintro rfl i hi time hlow hhigh
    have first := h.ascend 0 i (Nat.zero_le i) (Table.lt_length_of_le_last hlast hi.le)
    have final := h.ascend (i + 1) t.last hi h.last_lt
    rw [lookup_within (first.trans hlow) (hhigh.trans final)]
    exact within_segment h hs hi hlow hhigh
  constant := by
    rintro rfl time hfirst hfinal
    obtain ⟨i, hi⟩ := h.exists_isGreatest_reached hfirst
    rw [lookup_within hfirst hfinal]
    exact ⟨i, hi, within_constant h hi⟩
  held := by
    rintro rfl
    refine ⟨fun time hbefore => ?_, fun time hafter => ?_⟩
    · simp only [lookup, if_pos (Or.inl hbefore), if_pos hbefore]
    · simp only [lookup, if_pos (Or.inr hafter), if_neg (h.not_lt_of_last_lt hafter)]
  continued := by
    rintro rfl
    refine ⟨fun time hbefore => ?_, fun time hafter => ?_⟩
    · simp only [lookup, if_pos (Or.inl hbefore), if_pos hbefore]
      exact continued_first h hs hlast
    · simp only [lookup, if_pos (Or.inr hafter), if_neg (h.not_lt_of_last_lt hafter)]
      exact continued_last h hs hlast
  repeated := by
    rintro rfl time houtside
    have range : t.stamp 0 < t.stamp t.last :=
      (hs 0 hlast).trans_le (h.ascend 1 t.last hlast h.last_lt)
    exact lookup_periodic range houtside

/-! ## The block -/

/-- An offset has a number for each column, which is zero where none is given. -/
theorem offsets_eq_ok_iff {α : Type} [Scalar α] {t : Table α} {offset : Option (List α)}
    {added : List α} :
    offsets t offset = .ok added ↔
      added = offset.getD (List.replicate t.columns 0) ∧ added.length = t.columns := by
  cases offset with
  | none =>
    simp only [offsets, Except.ok.injEq, Option.getD_none]
    constructor
    · rintro rfl
      exact ⟨rfl, List.length_replicate⟩
    · exact fun h => h.1.symm
  | some offset =>
    by_cases hlength : offset.length = t.columns
    · simp only [offsets, if_pos hlength, Except.ok.injEq, Option.getD_some]
      constructor
      · rintro rfl
        exact ⟨rfl, hlength⟩
      · exact fun h => h.1.symm
    · simp only [offsets, if_neg hlength, reduceCtorEq, Option.getD_some, false_iff]
      rintro ⟨rfl, hadded⟩
      exact hlength hadded

/-- **What an interpolated table gives.**  Of an accepted table with two rows at least and no two
stamps alike, the values at any time are those that `Interpolates` asks for, and the lines on both
sides of a row meet in it.  Unless the last two rows are continued, each value lies between the
least and the greatest of its column, at any time.  The block gives one value for each column, with
the offset of that column added. -/
theorem interpolates_exact {cells : List (List Rat)} {c : Config Rat}
    {b : Block Rat Unit Unit (List Rat)} (hb : block cells c = .ok b)
    (ht : Table.parse "RealTimeTable" cells c.scale = .ok t) (hrows : 2 ≤ t.rows.length)
    (hs : t.Separated) :
    let y := lookup t c.smoothness c.extrapolation
    let offset := c.offset.getD (List.replicate t.columns 0)
    Interpolates t c.smoothness c.extrapolation y ∧
      (∀ i, i + 1 < t.last →
        t.line i (i + 1) (t.stamp (i + 1)) = t.values (i + 1) ∧
          t.line (i + 1) (i + 2) (t.stamp (i + 1)) = t.values (i + 1)) ∧
      (c.extrapolation ≠ .lastTwoPoints → ∀ now, t.Covers (y now)) ∧
      offset.length = t.columns ∧
      ∀ now s, b.call ⟨now, ()⟩ s =
        .ok ((List.range t.columns).map fun j => (y now).getD j 0 + offset.getD j 0, s) := by
  obtain ⟨t', added, ht', hoffset, rfl⟩ := block_eq_ok_iff.1 hb
  obtain rfl : t = t' := Except.ok.inj (ht.symm.trans ht')
  obtain ⟨rfl, hlength⟩ := offsets_eq_ok_iff.1 hoffset
  have h : t.Sound := Table.sound_of_parse ht
  have hlast : 0 < t.last := Nat.sub_pos_of_lt hrows
  have hy := interpolates_lookup h hs hlast c.smoothness c.extrapolation
  refine ⟨hy, fun i hi => h.line_meets hs hi,
    fun hext now => (hy.between h hlast hext now).covers h, hlength, fun now s => ?_⟩
  refine congrArg (fun y => Except.ok (y, s)) (List.ext_getElem ?_ fun j hj hj' => ?_)
  · simp [hy.length_eq h hlast, hlength]
  · have hcolumn : j < t.columns := by simpa using hj'
    have value : j < (lookup t c.smoothness c.extrapolation now).length :=
      hcolumn.trans_eq (hy.length_eq h hlast now).symm
    have added := hcolumn.trans_eq hlength.symm
    simp [List.getElem?_eq_getElem value, List.getElem?_eq_getElem added]

/-- Three rows, with lines between them and the table over again. -/
theorem interpolates_exact_wrapped :
    ∃ (t : Table Rat) (b : Block Rat Unit Unit (List Rat)),
      Table.parse "RealTimeTable" [[0, 0, 10], [1, 2, 10], [3, 6, 20]] 1 = .ok t ∧
        block [[0, 0, 10], [1, 2, 10], [3, 6, 20]] ⟨.linear, .periodic, some [1, -10], 1⟩ =
          .ok b ∧ 2 ≤ t.rows.length ∧ t.Separated ∧ b.call ⟨2, ()⟩ () = .ok ([5, 5], ()) ∧
            t.Covers (lookup t .linear .periodic (7 / 2)) := by
  let t : Table Rat := ⟨[⟨0, [0, 10]⟩, ⟨1, [2, 10]⟩, ⟨3, [6, 20]⟩]⟩
  have ht : Table.parse "RealTimeTable" [[0, 0, 10], [1, 2, 10], [3, 6, 20]] (1 : Rat) = .ok t := by
    decide +kernel
  have hb : block [[0, 0, 10], [1, 2, 10], [3, 6, 20]] ⟨.linear, .periodic, some [1, -10], 1⟩ =
      .ok (.source "RealTimeTable" fun now =>
        .ok (List.zipWith (· + ·) (lookup t .linear .periodic now) [1, -10])) :=
    block_eq_ok_iff.2 ⟨t, [1, -10], ht, rfl, rfl⟩
  have hs : t.Separated := by
    have : ∀ i < 2, t.stamp i < t.stamp (i + 1) := by decide +kernel
    exact this
  obtain ⟨given, -, covers, -, calls⟩ := interpolates_exact hb ht (by decide) hs
  have segment : lookup t .linear .periodic 2 = [4, 15] := by
    rw [given.linear rfl 1 (by decide) 2 (by decide +kernel) (by decide +kernel)]
    decide +kernel
  refine ⟨t, _, ht, hb, by decide, hs, ?_, covers (by decide) (7 / 2)⟩
  rw [calls, segment]
  decide +kernel

end Interpolation

end ControlBlocks

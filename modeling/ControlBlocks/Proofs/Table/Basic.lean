import ControlBlocks.Proofs.Block.Built
import ControlBlocks.Source.Table
import Mathlib.Algebra.Order.Field.Rat
import Mathlib.Data.List.Chain
import Mathlib.Data.Nat.Find
import Mathlib.Order.Bounds.Basic

/-!
# Tables that could be built

Which cells make a table, and which of its rows a time has reached.

* `Table.parse_eq_ok_iff` — what is asked of the cells, and the rows they give;
* `Table.rectangular_of_parse` — these have one width, and there is at least one;
* `Table.getD_rowAtOrBefore?_lt` — bisection finds a row of the table, whatever its stamps;
* `Table.rowAtOrBefore?_eq_some_iff` — bisection finds the last row that is not after a time,
  wherever the rows before such a row are not after it either;
* `Table.Sound` — the tables in exact time that could be built, with stamps that ascend;
* `Table.Sound.rowAtOrBefore?_eq_some_iff` — in such a table, bisection finds the last row that a
  time has reached.
-/

set_option autoImplicit false

namespace ControlBlocks.Table

/-! ## Parsing -/

section Parse

variable {α : Type} [Scalar α] {block : String} {scale : α} {width : ℕ}

/-- The row that cells make, the stamp in the first of them. -/
def rowOf (scale : α) (cells : List α) : Row α := ⟨cells.headD 0 * scale, cells.tail⟩

/-- Cells of one width, all of them finite. -/
def Regular (width : ℕ) (cells : List α) : Prop :=
  cells.length = width ∧ cells.all Scalar.isFinite = true

/-- No stamp is before the one ahead of it; `before` is ahead of the first. -/
def Ascends (scale : α) (before : Option α) (cells : List (List α)) : Prop :=
  (before.toList ++ cells.map fun c => (rowOf scale c).stamp).IsChain fun s t => ¬ t < s

theorem ascends_cons (before : Option α) (c : List α) (cells : List (List α)) :
    Ascends scale before (c :: cells) ↔
      (∀ s, before = some s → ¬ (rowOf scale c).stamp < s) ∧
        Ascends scale (some (rowOf scale c).stamp) cells := by
  cases before with
  | none => simp [Ascends]
  | some s => simp [Ascends, List.isChain_cons_cons]

/-- A row is checked for its width, its entries and its stamp, in this order. -/
theorem parseRows_cons_eq_ok_iff {before : Option α} {c : List α} {cells : List (List α)}
    {rows : List (Row α)} :
    parseRows block scale width before (c :: cells) = .ok rows ↔
      Regular width c ∧ (∀ s, before = some s → ¬ (rowOf scale c).stamp < s) ∧
        ∃ rest, parseRows block scale width (some (rowOf scale c).stamp) cells = .ok rest ∧
          rowOf scale c :: rest = rows := by
  have row : (⟨c.headD 0 * scale, c.tail⟩ : Row α) = rowOf scale c := rfl
  have stamp : c.headD 0 * scale = (rowOf scale c).stamp := rfl
  rw [parseRows]
  simp only [row]
  simp only [stamp]
  by_cases hwidth : c.length = width
  · by_cases hfinite : c.all Scalar.isFinite = true
    · have regular : Regular width c := ⟨hwidth, hfinite⟩
      rw [if_neg (not_not_intro hwidth), if_neg (by simp [hfinite])]
      cases before with
      | none => simp [regular, map_eq_ok_iff]
      | some s =>
        by_cases hback : (rowOf scale c).stamp < s
        · simp [hback]
        · simp [hback, regular, map_eq_ok_iff]
    · have irregular : ¬ Regular width c := fun h => hfinite h.2
      simp [hwidth, hfinite, irregular]
  · have irregular : ¬ Regular width c := fun h => hwidth h.1
    simp [hwidth, irregular]

theorem parseRows_eq_ok_iff {before : Option α} {cells : List (List α)} {rows : List (Row α)} :
    parseRows block scale width before cells = .ok rows ↔
      (∀ c ∈ cells, Regular width c) ∧ Ascends scale before cells ∧
        rows = cells.map (rowOf scale) := by
  induction cells generalizing before rows with
  | nil =>
    cases before with
    | none => simp [parseRows, Ascends, eq_comm]
    | some s => simp [parseRows, Ascends, eq_comm]
  | cons c cells ih =>
    rw [parseRows_cons_eq_ok_iff, ascends_cons]
    constructor
    · rintro ⟨hc, hfirst, rest, hrest, rfl⟩
      obtain ⟨hcells, hascend, rfl⟩ := ih.1 hrest
      exact ⟨List.forall_mem_cons.2 ⟨hc, hcells⟩, ⟨hfirst, hascend⟩, rfl⟩
    · rintro ⟨hcells, ⟨hfirst, hascend⟩, rfl⟩
      obtain ⟨hc, hcells⟩ := List.forall_mem_cons.1 hcells
      exact ⟨hc, hfirst, _, ih.2 ⟨hcells, hascend, rfl⟩, rfl⟩

/-- A table is accepted just if the unit of time is positive and the cells are rows of one width, of
two columns at least, finite, and in the order of time. -/
theorem parse_eq_ok_iff {cells : List (List α)} {t : Table α} :
    parse block cells scale = .ok t ↔
      0 < scale ∧ cells ≠ [] ∧ 2 ≤ (cells.headD []).length ∧
        (∀ c ∈ cells, Regular (cells.headD []).length c) ∧ Ascends scale none cells ∧
          t = ⟨cells.map (rowOf scale)⟩ := by
  cases cells with
  | nil => simp [parse, bind_eq_ok_iff]
  | cons first rest =>
    by_cases hnarrow : first.length < 2
    · have narrow : ¬ 2 ≤ first.length := by omega
      simp [parse, bind_eq_ok_iff, hnarrow]
    · have wide : 2 ≤ first.length := by omega
      simp only [parse, bind_eq_ok_iff, requirePositive_eq_ok_iff, hnarrow, if_false,
        parseRows_eq_ok_iff, pure, Except.pure, Except.ok.injEq, List.headD_cons]
      constructor
      · rintro ⟨_, ⟨hscale, rfl⟩, _, ⟨hregular, hascend, rfl⟩, rfl⟩
        exact ⟨hscale, List.cons_ne_nil _ _, wide, hregular, hascend, rfl⟩
      · rintro ⟨hscale, -, -, hregular, hascend, rfl⟩
        exact ⟨_, ⟨hscale, rfl⟩, _, ⟨hregular, hascend, rfl⟩, rfl⟩

/-- A table with a row at least, and with rows of one width. -/
structure Rectangular (t : Table α) : Prop where
  nonempty : 0 < t.rows.length
  columns : ∀ i < t.rows.length, (t.values i).length = t.columns

theorem Rectangular.last_lt {t : Table α} (h : t.Rectangular) : t.last < t.rows.length :=
  Nat.sub_one_lt h.nonempty.ne'

theorem row_of_lt {t : Table α} {i : ℕ} (hi : i < t.rows.length) : t.row i = t.rows[i] := by
  simp [row, hi]

/-- A table that was accepted has a row, and as many values in each as its cells leave beside the
stamp. -/
theorem rectangular_of_parse {cells : List (List α)} {t : Table α}
    (h : parse block cells scale = .ok t) :
    t.Rectangular ∧ 0 < t.columns ∧ ∀ c ∈ cells, t.columns + 1 = c.length := by
  obtain ⟨-, hne, hwide, hregular, -, rfl⟩ := parse_eq_ok_iff.1 h
  have width (i : ℕ) (hi : i < (cells.map (rowOf scale)).length) :
      ((⟨cells.map (rowOf scale)⟩ : Table α).values i).length = (cells.headD []).length - 1 := by
    have hi' : i < cells.length := by simpa using hi
    have regular := hregular cells[i] (List.getElem_mem hi')
    rw [values, row_of_lt hi]
    simp [rowOf, regular.1]
  have nonempty : 0 < (cells.map (rowOf scale)).length := by
    rw [List.length_map]
    exact List.length_pos_iff.2 hne
  have first : columns ⟨cells.map (rowOf scale)⟩ = (cells.headD []).length - 1 := width 0 nonempty
  refine ⟨⟨nonempty, fun i hi => (width i hi).trans first.symm⟩, by omega, fun c hc => ?_⟩
  have := (hregular c hc).1
  omega

theorem stamp_map_rowOf {cells : List (List α)} {i : ℕ} (hi : i < cells.length) :
    stamp ⟨cells.map (rowOf scale)⟩ i = cells[i].headD 0 * scale := by
  rw [stamp, row_of_lt (by simpa using hi)]
  simp [rowOf]

theorem forall_stamp_iff (P : α → Prop) {cells : List (List α)} :
    (∀ i < (cells.map (rowOf scale)).length, P (stamp ⟨cells.map (rowOf scale)⟩ i)) ↔
      ∀ c ∈ cells, P (c.headD 0 * scale) := by
  rw [List.length_map, List.forall_mem_iff_getElem]
  refine forall_congr' fun i => forall_congr' fun hi => ?_
  rw [stamp_map_rowOf hi]

/-- Stamps that follow each other in a transitive order are in that order at any distance. -/
theorem stamp_rel_of_isChain {r : α → α → Prop} [IsTrans α r] {cells : List (List α)} {i j : ℕ}
    (h : (cells.map fun c => (rowOf scale c).stamp).IsChain r) (hij : i < j)
    (hj : j < cells.length) :
    r (stamp ⟨cells.map (rowOf scale)⟩ i) (stamp ⟨cells.map (rowOf scale)⟩ j) := by
  have hi : i < cells.length := hij.trans hj
  have ordered := List.pairwise_iff_getElem.1 (List.isChain_iff_pairwise.1 h) i j
    (by simpa using hi) (by simpa using hj) hij
  rw [stamp_map_rowOf hi, stamp_map_rowOf hj]
  simpa [rowOf] using ordered

end Parse

/-! ## The row that a time has reached -/

section Reached

variable {α : Type} [Scalar α] {t : Table α} {time : α} {i : ℕ}

/-- The rows that a time has reached. -/
def reached (t : Table α) (time : α) : Set ℕ := {i | i < t.rows.length ∧ t.stamp i ≤ time}

/-- Where the rows that are reached come first, bisection finds how many they are. -/
theorem exists_boundary (hfirst : ∀ i j, i ≤ j → j ∈ t.reached time → i ∈ t.reached time) :
    ∃ k, boundary (fun i => decide (t.stamp i ≤ time)) t.rows.length = k ∧
      ∀ i, i ∈ t.reached time ↔ i < k := by
  classical
  -- the first row that is not reached, or the number of rows
  have ends : ∃ k, k ∉ t.reached time := ⟨t.rows.length, fun h => (Nat.lt_irrefl _ h.1).elim⟩
  have below (i : ℕ) : i ∈ t.reached time ↔ i < Nat.find ends := by
    rw [Nat.lt_find_iff]
    constructor
    · intro hi m hm hout
      exact hout (hfirst m i hm hi)
    · intro h
      exact not_not.1 (h i le_rfl)
  have upper : Nat.find ends ≤ t.rows.length :=
    Nat.find_min' ends fun h => (Nat.lt_irrefl _ h.1).elim
  refine ⟨Nat.find ends, boundary_eq upper ?_, below⟩
  intro i hi
  apply decide_eq_decide.2
  rw [← below i]
  exact ⟨fun h => ⟨hi, h⟩, fun h => h.2⟩

theorem rowAtOrBefore?_eq_some_iff
    (hfirst : ∀ i j, i ≤ j → j ∈ t.reached time → i ∈ t.reached time) :
    t.rowAtOrBefore? time = some i ↔ IsGreatest (t.reached time) i := by
  obtain ⟨k, hk, below⟩ := exists_boundary hfirst
  have greatest : IsGreatest (t.reached time) i ↔ k = i + 1 := by
    constructor
    · rintro ⟨hi, hmax⟩
      have lower : i < k := (below i).1 hi
      by_contra hne
      have later : i + 1 ∈ t.reached time := (below (i + 1)).2 (by omega)
      exact absurd (hmax later) (by omega)
    · rintro rfl
      exact ⟨(below i).2 (Nat.lt_succ_self i), fun j hj => Nat.le_of_lt_succ ((below j).1 hj)⟩
  rw [greatest, rowAtOrBefore?, hk]
  cases k with
  | zero => simp
  | succ k => simp

theorem rowAtOrBefore?_eq_none_iff
    (hfirst : ∀ i j, i ≤ j → j ∈ t.reached time → i ∈ t.reached time) :
    t.rowAtOrBefore? time = none ↔ t.reached time = ∅ := by
  obtain ⟨k, hk, below⟩ := exists_boundary hfirst
  have empty : t.reached time = ∅ ↔ k = 0 := by
    rw [Set.eq_empty_iff_forall_notMem]
    constructor
    · intro h
      by_contra hne
      exact h 0 ((below 0).2 (Nat.pos_of_ne_zero hne))
    · rintro rfl i hi
      exact absurd ((below i).1 hi) (Nat.not_lt_zero i)
  rw [empty, rowAtOrBefore?, hk]
  cases k with
  | zero => simp
  | succ k => simp

/-- Whatever the order of the stamps, the row that is found is one of the table, and the first one
stands in where none is. -/
theorem getD_rowAtOrBefore?_lt (nonempty : 0 < t.rows.length) (time : α) :
    (t.rowAtOrBefore? time).getD 0 < t.rows.length := by
  have most := boundary_le (fun i => decide (t.stamp i ≤ time)) t.rows.length
  rw [rowAtOrBefore?]
  split
  · exact nonempty
  · rename_i i hi
    exact Nat.lt_of_succ_le (hi ▸ most)

end Reached

/-! ## Tables in exact time -/

/-- What holds of a table that was accepted: it has a row, its rows have one width, and its stamps
do not go back. -/
structure Sound (t : Table Rat) : Prop where
  nonempty : 0 < t.rows.length
  columns : ∀ i < t.rows.length, (t.values i).length = t.columns
  ascend : ∀ i j, i ≤ j → j < t.rows.length → t.stamp i ≤ t.stamp j

section Sound

variable {t : Table Rat} {time : Rat} {i : ℕ}

theorem sound_of_parse {block : String} {cells : List (List Rat)} {scale : Rat}
    (h : parse block cells scale = .ok t) : t.Sound := by
  obtain ⟨⟨nonempty, columns⟩, -⟩ := rectangular_of_parse h
  refine ⟨nonempty, columns, ?_⟩
  obtain ⟨-, -, -, -, hascend, rfl⟩ := parse_eq_ok_iff.1 h
  have sorted : (cells.map fun c => (rowOf scale c).stamp).IsChain (· ≤ ·) := by
    simpa [Ascends, not_lt] using hascend
  intro i j hij hj
  rcases hij.lt_or_eq with hlt | rfl
  · exact stamp_rel_of_isChain sorted hlt (by simpa using hj)
  · exact le_rfl

theorem le_last (hi : i < t.rows.length) : i ≤ t.last := Nat.le_sub_one_of_lt hi

namespace Sound

/-- The rows before one that is reached are reached. -/
theorem reached_of_le (h : t.Sound) {i j : ℕ} (hij : i ≤ j) (hj : j ∈ t.reached time) :
    i ∈ t.reached time :=
  ⟨hij.trans_lt hj.1, (h.ascend i j hij hj.1).trans hj.2⟩

theorem rowAtOrBefore?_eq_some_iff (h : t.Sound) :
    t.rowAtOrBefore? time = some i ↔ IsGreatest (t.reached time) i :=
  Table.rowAtOrBefore?_eq_some_iff fun _ _ => h.reached_of_le

/-- From the first stamp on, there is a last row that is reached. -/
theorem exists_isGreatest_reached (h : t.Sound) (htime : t.stamp 0 ≤ time) :
    ∃ i, IsGreatest (t.reached time) i := by
  cases hrow : t.rowAtOrBefore? time with
  | none =>
    rw [rowAtOrBefore?_eq_none_iff fun _ _ => h.reached_of_le] at hrow
    have first : 0 ∈ t.reached time := ⟨h.nonempty, htime⟩
    rw [hrow] at first
    exact first.elim
  | some i => exact ⟨i, h.rowAtOrBefore?_eq_some_iff.1 hrow⟩

theorem rectangular (h : t.Sound) : t.Rectangular := ⟨h.nonempty, h.columns⟩

theorem last_lt (h : t.Sound) : t.last < t.rows.length := h.rectangular.last_lt

/-- Where the last row is reached, it is the last one reached. -/
theorem isGreatest_last (h : t.Sound) (htime : t.stamp t.last ≤ time) :
    IsGreatest (t.reached time) t.last :=
  ⟨⟨h.last_lt, htime⟩, fun _ hi => le_last hi.1⟩

end Sound

end Sound

end ControlBlocks.Table

import ControlBlocks.Block.Basic

/-!
# Time tables

Rows of values with time stamps.

* `bisect` — the halving of places; `boundary` — how many of them have a property;
* `boundary_eq` — where the places with the property come first, `boundary` counts them;
* `boundary_le` — whatever the property, it counts no more places than there are;
* `Table.parse` — a table from its rows `[t, y₁, y₂, …]`, checked;
* `Table.rowAtOrBefore?` — the last row that a time has reached;
* `Table.integers`, `Table.booleans` — tables repeated with a period, each row holding until the
  next.
-/

set_option autoImplicit false

namespace ControlBlocks

/-! ## Bisection -/

/-- The `size` places from `base` on are halved until one is left: the upper half stays if its first
place has the property, otherwise the lower one; `fuel` is at least `size`. -/
def bisect (p : Nat → Bool) : (fuel size base : Nat) → Nat
  | 0, _, base => base
  | fuel + 1, size, base =>
    if size ≤ 1 then base
    else bisect p fuel (size - size / 2) (if p (base + size / 2) then base + size / 2 else base)

/-- The number of places below `size` with a property that those have which come first. -/
def boundary (p : Nat → Bool) (size : Nat) : Nat :=
  if size = 0 then 0
  else
    let place := bisect p size size 0
    if p place then place + 1 else place

theorem bisect_eq {p : Nat → Bool} {k : Nat} (fuel size base : Nat) (enough : size ≤ fuel)
    (upper : k ≤ base + size) (nonempty : 1 ≤ size)
    (cut : ∀ i, base ≤ i → i < base + size → p i = decide (i < k)) :
    bisect p fuel size base = max base (k - 1) := by
  induction fuel generalizing size base with
  | zero => omega
  | succ fuel ih =>
    unfold bisect
    split
    · omega
    · have middle := cut (base + size / 2) (by omega) (by omega)
      by_cases below : base + size / 2 < k
      · simp only [middle, below, decide_true, if_true]
        rw [ih _ _ (by omega) (by omega) (by omega) fun i hi hi' => cut i (by omega) (by omega)]
        omega
      · simp only [middle, below, decide_false, Bool.false_eq_true, if_false]
        exact ih _ _ (by omega) (by omega) (by omega) fun i hi hi' => cut i hi (by omega)

/-- A boundary is found where there is one. -/
theorem boundary_eq {p : Nat → Bool} {k size : Nat} (upper : k ≤ size)
    (cut : ∀ i < size, p i = decide (i < k)) : boundary p size = k := by
  unfold boundary
  split
  · omega
  · have place := bisect_eq size size 0 (Nat.le_refl _) (by omega) (by omega)
      fun i _ hi => cut i (by omega)
    simp only [place, Nat.zero_max, cut (k - 1) (by omega)]
    by_cases h : k - 1 < k
    · simp only [h, decide_true, if_true]
      omega
    · simp only [h, decide_false, Bool.false_eq_true, if_false]
      omega

/-- The place that is left is one of those that were halved. -/
theorem bisect_lt (p : Nat → Bool) (fuel : Nat) {size : Nat} (base : Nat) (nonempty : 1 ≤ size) :
    bisect p fuel size base < base + size := by
  induction fuel generalizing size base with
  | zero =>
    unfold bisect
    omega
  | succ fuel ih =>
    unfold bisect
    split
    · omega
    · refine Nat.lt_of_lt_of_le (ih _ (by omega)) ?_
      split <;> omega

theorem boundary_le (p : Nat → Bool) (size : Nat) : boundary p size ≤ size := by
  unfold boundary
  split
  · exact Nat.zero_le size
  · have place := bisect_lt p size 0 (by omega : 1 ≤ size)
    dsimp only
    split <;> omega

/-! ## Tables -/

/-- A row of a table. -/
structure Row (α : Type) where
  stamp : α
  values : List α
  deriving DecidableEq, Repr, Inhabited

/-- The rows of a table, earliest first. -/
structure Table (α : Type) where
  rows : List (Row α)
  deriving DecidableEq, Repr

namespace Table

section Rows

variable {α : Type} [Scalar α]

/-- The row at a place; it has no values where there is no such row. -/
def row (t : Table α) (i : Nat) : Row α := (t.rows[i]?).getD ⟨0, []⟩

/-- The time stamp of a row. -/
def stamp (t : Table α) (i : Nat) : α := (t.row i).stamp

/-- The values of a row. -/
def values (t : Table α) (i : Nat) : List α := (t.row i).values

/-- The place of the last row. -/
def last (t : Table α) : Nat := t.rows.length - 1

/-- The number of values in a row. -/
def columns (t : Table α) : Nat := (t.values 0).length

/-- The place of the last row whose stamp is not after a time, found by bisection. -/
def rowAtOrBefore? (t : Table α) (time : α) : Option Nat :=
  match boundary (fun i => decide (t.stamp i ≤ time)) t.rows.length with
  | 0 => none
  | i + 1 => some i

/-- The rows from `cells` on, `before` being the stamp of the row before them: rows of one width
with finite entries, and stamps that do not go back. -/
def parseRows (block : String) (scale : α) (width : Nat) :
    (before : Option α) → (cells : List (List α)) → Except (Fault α) (List (Row α))
  | _, [] => .ok []
  | before, cells :: rest =>
    if cells.length ≠ width then .error (.configuration block "table rows must have equal length")
    else if !cells.all Scalar.isFinite then
      .error (.configuration block "table entries must be finite")
    else
      let stamp := cells.headD 0 * scale
      let goesBack :=
        match before with
        | some t => decide (stamp < t)
        | none => false
      if goesBack then .error (.configuration block "time stamps must be non-decreasing")
      else (parseRows block scale width (some stamp) rest).map (⟨stamp, cells.tail⟩ :: ·)

/-- A table from its rows, the time in the first column and in units of `scale` seconds: at least
one row, and at least one column of values. -/
def parse (block : String) (cells : List (List α)) (scale : α) : Except (Fault α) (Table α) := do
  let scale ← requirePositive scale block "timeScale must be > 0"
  match cells with
  | [] => .error (.configuration block "table must have at least one row")
  | first :: _ =>
    if first.length < 2 then
      .error (.configuration block "table needs a time column and at least one value column")
    else return ⟨← parseRows block scale first.length none cells⟩

end Rows

/-- How far a stamp or a value of a periodic table may be off. -/
def stampTolerance {α : Type} [Scalar α] : α := 1e-6

/-- A table of integers that repeats. -/
structure Periodic (α : Type) where
  table : Table α
  values : List (List Int)
  period : α

/-- The length of a day in seconds. -/
def day {α : Type} [Scalar α] : α := 86400.0

namespace Periodic

variable {α : Type} [Scalar α]

/-- The integer that a cell stands for, within the tolerance and 64 bits. -/
def integer (block : String) (v : α) : Except (Fault α) Int :=
  let rounded := Scalar.nearest v
  let fault := Fault.configuration block "table values must be integers"
  if stampTolerance < Scalar.magnitude (v - rounded) then .error fault
  else
    match Scalar.wholePart? rounded with
    | some n => if n.natAbs < 0x8000000000000000 then .ok n else .error fault
    | none => .error fault

/-- A periodic table: its first stamp is zero, its last one before the period. -/
def parse (block : String) (cells : List (List α)) (scale period : α) :
    Except (Fault α) (Periodic α) := do
  let period ← requirePositive period block "period must be > 0"
  let table ← Table.parse block cells scale
  if stampTolerance < Scalar.magnitude (table.stamp 0) then
    .error (.configuration block "first time stamp must be zero")
  else if period ≤ table.stamp table.last then
    .error (.configuration block "last time stamp must be smaller than period")
  else
    let values ← table.rows.mapM fun row => row.values.mapM (integer block)
    return ⟨table, values, period⟩

/-- The place of the row that holds at a time. -/
def place (p : Periodic α) (time : α) : Nat :=
  (p.table.rowAtOrBefore? (Scalar.floorMod time p.period + stampTolerance)).getD 0

/-- The values that hold at a time. -/
def valuesAt (p : Periodic α) (time : α) : List Int := (p.values[p.place time]?).getD []

end Periodic

variable {α : Type} [Scalar α]

/-- A table of integers, repeated with a period. -/
def integers (cells : List (List α)) (scale period : α) :
    Except (Fault α) (Block α Unit Unit (List Int)) :=
  (Periodic.parse "IntegerTimeTable" cells scale period).map fun p =>
    .source "IntegerTimeTable" fun t => .ok (p.valuesAt t)

/-- A cell is zero or one, within the tolerance. -/
def isBinary (v : α) : Bool :=
  decide (Scalar.magnitude v < stampTolerance) ||
    decide (Scalar.magnitude (v - 1) < stampTolerance)

/-- A table of truth values, written as zero and one, repeated with a period. -/
def booleans (cells : List (List α)) (scale period : α) :
    Except (Fault α) (Block α Unit Unit (List Bool)) :=
  if cells.all fun row => (row.drop 1).all isBinary then
    (Periodic.parse "TimeTable" cells scale period).map fun p =>
      .source "TimeTable" fun t => .ok ((p.valuesAt t).map fun v => decide (0 < v))
  else .error (.configuration "TimeTable" "table values must be 0 or 1")

end Table

end ControlBlocks

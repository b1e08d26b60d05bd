import ControlBlocks.Block.Basic

/-!
# Vectors and matrices

A matrix is a list of rows of one length, at least one row and one column.

* `Matrix.sort` — a sorted vector with the positions its entries came from;
* `Matrix.gain` — a matrix times a vector;
* `Matrix.max`, `Matrix.min` — the greatest or least entry of each row or column.
-/

set_option autoImplicit false

namespace ControlBlocks.Matrix

section Sorting

variable {α β : Type} [TotalOrder β]

/-- A sorted vector; `positions` counts from one. -/
structure Sorted (β : Type) where
  values : List β
  positions : List Int
  deriving DecidableEq, Repr

/-- The entries in order, each with its position; equal entries keep their order. -/
def sortEntries (ascending : Bool) (u : List β) : List (β × Nat) :=
  u.zipIdx.mergeSort fun a b =>
    if ascending then TotalOrder.totalLE a.1 b.1 else TotalOrder.totalLE b.1 a.1

/-- The vector in order, upwards or downwards. -/
def sorted (ascending : Bool) (u : List β) : Sorted β :=
  let entries := sortEntries ascending u
  ⟨entries.map (·.1), entries.map fun e => (e.2 : Int) + 1⟩

/-- A vector of any values with a total order, floats or their encodings. -/
def sort (β : Type) [TotalOrder β] (ascending : Bool) : Block α (List β) Unit (Sorted β) :=
  .total "Sort" (sorted ascending)

instance : ToDatum α (Sorted α) where
  toDatum s := .record [("y", toDatum s.values), ("y_idx", toDatum s.positions)]

end Sorting

variable {α : Type} [Scalar α]

/-- The number of columns of a matrix; `none` for rows of different lengths or without entries. -/
def columns? (m : List (List α)) : Option Nat :=
  match m with
  | [] => none
  | row :: _ =>
    if 0 < row.length ∧ m.all fun r => r.length = row.length then some row.length else none

/-- A matrix times a vector. -/
def product (columns : Nat) (k : List (List α)) (u : List α) : Except (Fault α) (List α) :=
  if u.length = columns then .ok (k.map fun row => Scalar.sum (Scalar.products row u))
  else .error (.domain "MatrixGain" "input length must equal the columns of K"
    ((u.length : Int) : α))

/-- Multiplication by a constant matrix. -/
def gain (k : List (List α)) : Except (Fault α) (Block α (List α) Unit (List α)) :=
  match columns? k with
  | some columns => .ok (.memoryless "MatrixGain" (product columns k))
  | none => .error (.configuration "MatrixGain" "K must be a non-empty rectangular matrix")

/-- The two by two identity. -/
def identity : List (List α) := [[1, 0], [0, 1]]

/-- The entries of a column, from the first row on. -/
def column (u : List (List α)) (j : Nat) : List α := u.filterMap (·[j]?)

/-- The entries of each row, or of each column, combined from the left.  What they are combined with
at first is no number, and so loses against the first entry. -/
def extrema (block : String) (f : α → α → α) (byRow : Bool) (u : List (List α)) :
    Except (Fault α) (List α) :=
  match columns? u with
  | none => .error (.domain block "input must be a non-empty rectangular matrix"
      ((u.length : Int) : α))
  | some columns =>
    let lines := if byRow then u else (List.range columns).map (column u)
    .ok (lines.map fun line => line.foldl f Scalar.notANumber)

def max (byRow : Bool) : Block α (List (List α)) Unit (List α) :=
  .memoryless "MatrixMax" (extrema "MatrixMax" Scalar.larger byRow)

def min (byRow : Bool) : Block α (List (List α)) Unit (List α) :=
  .memoryless "MatrixMin" (extrema "MatrixMin" Scalar.smaller byRow)

end ControlBlocks.Matrix

import ControlBlocks.Source.Table

/-!
# Interpolated tables

* `Interpolation.Smoothness`, `Extrapolation` — what happens between the rows of a table and
  outside its range;
* `Interpolation.lookup` — the values at a time;
* `Interpolation.block` — the block.
-/

set_option autoImplicit false

namespace ControlBlocks.Interpolation

/-- Between two rows: along the line through them, or at the earlier one. -/
inductive Smoothness where
  | linear
  | constant
  deriving DecidableEq, Repr

/-- Outside the range: the table over again, its end held, or its last two rows continued. -/
inductive Extrapolation where
  | periodic
  | holdLastPoint
  | lastTwoPoints
  deriving DecidableEq, Repr

section Names

variable {α : Type}

def Smoothness.named : List (String × Smoothness) :=
  [("LinearSegments", .linear), ("ConstantSegments", .constant)]

instance : OfDatum α Smoothness := ⟨ofName? Smoothness.named⟩

instance : ToDatum α Smoothness where
  toDatum
    | .linear => .text "LinearSegments"
    | .constant => .text "ConstantSegments"

def Extrapolation.named : List (String × Extrapolation) :=
  [("Periodic", .periodic), ("HoldLastPoint", .holdLastPoint), ("LastTwoPoints", .lastTwoPoints)]

instance : OfDatum α Extrapolation := ⟨ofName? Extrapolation.named⟩

instance : ToDatum α Extrapolation where
  toDatum
    | .periodic => .text "Periodic"
    | .holdLastPoint => .text "HoldLastPoint"
    | .lastTwoPoints => .text "LastTwoPoints"

end Names

/-- The parameters besides the table. -/
structure Config (α : Type) where
  smoothness : Smoothness
  extrapolation : Extrapolation
  /-- Added to each column; nothing if not given. -/
  offset : Option (List α)
  /-- The unit of the time column, in seconds. -/
  scale : α

variable {α : Type} [Scalar α]

/-- Straight lines, the table over again, no offset, seconds. -/
def Config.standard : Config α := ⟨.linear, .periodic, none, 1⟩

/-- The point a fraction on from `base` in the direction from `v₀` to `v₁`, column by column. -/
def lerp (base v₀ v₁ : List α) (fraction : α) : List α :=
  List.zipWith (fun b (d : α × α) => b + fraction * (d.2 - d.1)) base (v₀.zip v₁)

/-- The values at a time within the range. -/
def within (table : Table α) (smoothness : Smoothness) (t : α) : List α :=
  let i := (table.rowAtOrBefore? t).getD 0
  if smoothness = .constant ∨ table.last = 0 then table.values i
  else
    let i := min i (table.last - 1)
    let span := table.stamp (i + 1) - table.stamp i
    if span ≤ 0 then table.values i
    else lerp (table.values i) (table.values i) (table.values (i + 1)) ((t - table.stamp i) / span)

/-- The values on the line through the two rows at one end of the table; those of the end itself
where there is but one row, or two at one time. -/
def continued (table : Table α) (fromEnd : Nat) (t : α) : List α :=
  let i := if fromEnd = 0 then 0 else table.last - 1
  let span := if table.last = 0 then 0 else table.stamp (i + 1) - table.stamp i
  if span ≤ 0 then table.values fromEnd
  else lerp (table.values fromEnd) (table.values i) (table.values (i + 1))
    ((t - table.stamp fromEnd) / span)

/-- The values at a time, before the offset. -/
def lookup (table : Table α) (smoothness : Smoothness) (extrapolation : Extrapolation) (t : α) :
    List α :=
  let first := table.stamp 0
  let final := table.stamp table.last
  if t < first ∨ final < t then
    let nearEnd := if t < first then 0 else table.last
    match extrapolation with
    | .holdLastPoint => table.values nearEnd
    | .lastTwoPoints => continued table nearEnd t
    | .periodic =>
      let range := final - first
      if range ≤ 0 then table.values nearEnd
      else within table smoothness (first + Scalar.floorMod (t - first) range)
  else within table smoothness t

/-- The offset of each column. -/
def offsets (table : Table α) (offset : Option (List α)) : Except (Fault α) (List α) :=
  match offset with
  | none => .ok (List.replicate table.columns 0)
  | some offset =>
    if offset.length = table.columns then .ok offset
    else .error (.configuration "RealTimeTable"
      "offset length must match the number of value columns")

/-- A table looked up at the present time. -/
def block (cells : List (List α)) (c : Config α) :
    Except (Fault α) (Block α Unit Unit (List α)) := do
  let table ← Table.parse "RealTimeTable" cells c.scale
  let offset ← offsets table c.offset
  return .source "RealTimeTable" fun t =>
    .ok (List.zipWith (· + ·) (lookup table c.smoothness c.extrapolation t) offset)

end ControlBlocks.Interpolation

/-!
# Scalars

The numbers that blocks compute with.  A block is written once, over any type with the operations
of `Scalar`: binary floating point runs it, exact rationals serve statements about it.

* `TotalOrder` — a total order of all values of a type;
* `Scalar` — ordered arithmetic, decimal literals, integer casts, `floor` and `ceil`;
* `Elementary` — the scalars that also have square roots, exponentials and angles;
* `Scalar.floorMod`, `clamp`, `larger`, `nearest`, `sum` and the other operations that every
  scalar type has.

A scalar type may hold values that are no numbers (a quotient of zeros).  Every comparison with
such a value is false; the docs below say what the derived operations do with it.
-/

set_option autoImplicit false

namespace ControlBlocks

/-- A total order of all values, those that are no numbers included. -/
class TotalOrder (α : Type) where
  /-- The first value may stand before the second one. -/
  totalLE : α → α → Bool

/-- Ordered arithmetic with decimal literals, integer casts and the integers on either side. -/
class Scalar (α : Type) extends Zero α, One α, Add α, Sub α, Mul α, Div α, Neg α, LT α, LE α,
    BEq α, IntCast α, OfScientific α, TotalOrder α where
  decLT : ∀ a b : α, Decidable (a < b)
  decLE : ∀ a b : α, Decidable (a ≤ b)
  /-- The greatest integer not above a number. -/
  floor : α → α
  /-- The least integer not below a number. -/
  ceil : α → α
  /-- The integer part, toward zero; `none` for an infinite value or one that is no number. -/
  wholePart? : α → Option Int
  /-- The power `10 ^ n`. -/
  powerOfTen : Int → α

instance instDecidableLTOfScalar (α : Type) [Scalar α] : DecidableLT α := Scalar.decLT
instance instDecidableLEOfScalar (α : Type) [Scalar α] : DecidableLE α := Scalar.decLE

/-- Scalars with roots, powers, logarithms and angles in radians. -/
class Elementary (α : Type) extends Scalar α where
  pi : α
  sqrt : α → α
  exp : α → α
  log : α → α
  log10 : α → α
  pow : α → α → α
  sin : α → α
  cos : α → α
  tan : α → α
  asin : α → α
  acos : α → α
  atan : α → α
  atan2 : α → α → α

/-- Exact rational arithmetic. -/
instance : Scalar Rat where
  zero := 0
  one := 1
  intCast := fun n => (n : Rat)
  decLT := fun _ _ => inferInstance
  decLE := fun _ _ => inferInstance
  floor := fun x => (x.floor : Rat)
  ceil := fun x => (x.ceil : Rat)
  wholePart? := fun x => some (if x < 0 then x.ceil else x.floor)
  powerOfTen := fun n => if 0 ≤ n then 10 ^ n.toNat else 1 / 10 ^ n.natAbs
  totalLE := fun a b => decide (a ≤ b)

namespace Scalar

variable {α : Type} [Scalar α]

/-- True of every number, false of infinite values and of values that are no numbers. -/
def isFinite (x : α) : Bool := x - x == 0

/-- The distance from zero; it also clears the sign of a zero. -/
def magnitude (x : α) : α := if 0 < x then x else 0 - x

/-- A value that is no number, where the type holds any: a quotient of zeros. -/
def notANumber : α := 0 / 0

/-- The larger of two values; one that is no number loses against the other. -/
def larger (a b : α) : α := if a < b then b else if a == a then a else b

/-- The smaller of two values; one that is no number loses against the other. -/
def smaller (a b : α) : α := if b < a then b else if a == a then a else b

/-- The value of `[low, high]` closest to `x`; a value that is no number stays as it is. -/
def clamp (low high x : α) : α := if x < low then low else if high < x then high else x

/-- The integer part, toward zero. -/
def truncate (x : α) : α := if x < 0 then ceil x else floor x

/-- The nearest integer; a half goes away from zero. -/
def nearest (x : α) : α :=
  let whole := truncate x
  if x < 0 then
    if 0.5 ≤ whole - x then whole - 1 else whole
  else
    if 0.5 ≤ x - whole then whole + 1 else whole

/-- The remainder of `a` after whole multiples of `b`; it carries the sign of `b`. -/
def floorMod (a b : α) : α := a - b * floor (a / b)

/-- The sum of a list, added up from minus zero: the sum of no values, or of minus zeros alone, is
minus zero. -/
def sum (xs : List α) : α := xs.foldl (· + ·) (-0)

/-- The products of two lists, over the shorter of them. -/
def products (ks us : List α) : List α := List.zipWith (· * ·) ks us

/-- The entries of a list combined two by two, from the left; at least one. -/
def reduce? (f : α → α → α) : List α → Option α
  | [] => none
  | x :: xs => some (xs.foldl f x)

/-- Two calls closer together than this belong to the same sampling instant (seconds). -/
def timeTolerance : α := 1e-9

end Scalar

end ControlBlocks

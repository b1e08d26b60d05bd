import ControlBlocks.Numeric.Scalar

/-!
# Binary floating point

The 64-bit format: one sign bit, eleven exponent bits, fifty-two fraction bits.

* `Binary64.decode` — a finite value as an integer times a power of two;
* `Binary64.towardZero`, `floor`, `ceil` — integer parts, by clearing fraction bits;
* `Binary64.Encoding` — all the bits of a value;
* `Binary64.Encoding.orderKey` — the total order of all encodings, in which `-0.0` is below `0.0`;
* the instances `Scalar Float` and `Elementary Float`.
-/

set_option autoImplicit false

namespace ControlBlocks

namespace Binary64

/-- The eleven exponent bits. -/
def exponentBits (x : Float) : Nat := (x.toBits.toNat / 0x10000000000000) % 0x800

/-- The fifty-two fraction bits. -/
def fractionBits (x : Float) : Nat := x.toBits.toNat % 0x10000000000000

/-- The sign bit; zeros have one as well. -/
def isNegative (x : Float) : Bool := 0x8000000000000000 ≤ x.toBits.toNat

/-- A finite magnitude `significand * 2 ^ exponent`. -/
structure Magnitude where
  significand : Nat
  exponent : Int
  deriving Repr, DecidableEq

/-- The magnitude of a finite value; `none` for infinities and for values that are no numbers. -/
def decode (x : Float) : Option Magnitude :=
  let e := exponentBits x
  if e = 2047 then none
  else if e = 0 then some ⟨fractionBits x, -1074⟩
  else some ⟨fractionBits x + 0x10000000000000, (e : Int) - 1075⟩

/-- The integer part of a magnitude. -/
def Magnitude.whole (m : Magnitude) : Nat :=
  if 0 ≤ m.exponent then m.significand * Nat.pow 2 m.exponent.toNat
  else m.significand / Nat.pow 2 (-m.exponent).toNat

/-- The integer part of a finite value, toward zero. -/
def wholePart? (x : Float) : Option Int :=
  (decode x).map fun m => if isNegative x then -(m.whole : Int) else m.whole

/-- The integer part as a float: the fraction bits below the point are cleared. -/
def towardZero (x : Float) : Float :=
  let e := exponentBits x
  if e < 1023 then Float.ofBits (x.toBits &&& 0x8000000000000000)
  else if 1075 ≤ e then x
  else
    let places : UInt64 := (1075 - e).toUInt64
    Float.ofBits ((x.toBits >>> places) <<< places)

/-- The greatest integer not above `x`. -/
def floor (x : Float) : Float :=
  let t := towardZero x
  if x < t then t - 1.0 else t

/-- The least integer not below `x`. -/
def ceil (x : Float) : Float :=
  let t := towardZero x
  if t < x then t + 1.0 else t

/-- All sixty-four bits of a value.  Of the values that are no numbers there are many, each with a
sign and a payload; among floats they are one. -/
structure Encoding where
  bits : UInt64
  deriving DecidableEq, Repr

namespace Encoding

/-- The encoding of a float. -/
def ofFloat (x : Float) : Encoding := ⟨x.toBits⟩

/-- The sign bit. -/
def isNegative (p : Encoding) : Bool := 0x8000000000000000 ≤ p.bits.toNat

/-- The place of an encoding in the total order: negative encodings come first, and run
backwards. -/
def orderKey (p : Encoding) : Int :=
  if p.isNegative then 0x7fffffffffffffff - (p.bits.toNat : Int) else p.bits.toNat

instance : TotalOrder Encoding where
  totalLE := fun a b => a.orderKey ≤ b.orderKey

end Encoding

/-- The power `10 ^ n`, rounded to the nearest value; infinite or zero far outside the range. -/
def powerOfTen (n : Int) : Float :=
  if 400 < n then 1.0 / 0.0
  else if n < -400 then 0.0
  else Float.ofScientific 1 (n < 0) n.natAbs

end Binary64

/-- Binary floating point; what runs. -/
instance : Scalar Float where
  zero := 0.0
  one := 1.0
  intCast := Float.ofInt
  decLT := fun _ _ => inferInstance
  decLE := fun _ _ => inferInstance
  floor := Binary64.floor
  ceil := Binary64.ceil
  wholePart? := Binary64.wholePart?
  powerOfTen := Binary64.powerOfTen
  totalLE := fun a b =>
    TotalOrder.totalLE (Binary64.Encoding.ofFloat a) (Binary64.Encoding.ofFloat b)

instance : Elementary Float where
  pi := 3.141592653589793
  sqrt := Float.sqrt
  exp := Float.exp
  log := Float.log
  log10 := Float.log10
  pow := Float.pow
  sin := Float.sin
  cos := Float.cos
  tan := Float.tan
  asin := Float.asin
  acos := Float.acos
  atan := Float.atan
  atan2 := Float.atan2

end ControlBlocks

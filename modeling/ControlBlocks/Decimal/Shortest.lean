import ControlBlocks.Numeric.Binary64

/-!
# Shortest decimals

The decimal with the fewest digits that reads back to a given binary value, the rounding of a
binary value to a number of significant digits, and how the digits are set.  All of it is exact
arithmetic on naturals.

* `Decimal` — a coefficient and a power of ten;
* `Decimal.shortest` — the fewest digits; of two such decimals the nearer, of two equally near the
  one that `Tie` names;
* `Decimal.toFloat` — the nearest binary value, halves to the even one;
* `roundSignificant` — the nearest decimal of a given number of digits, as a binary value;
* `Layout` — positional or scientific, with or without a trailing `.0`: the decisions of one output
  format; `Layout.write` — the text of a float in that format.
-/

set_option autoImplicit false

namespace ControlBlocks

/-- The number `coefficient * 10 ^ exponent`. -/
structure Decimal where
  coefficient : Nat
  exponent : Int
  deriving Repr, DecidableEq

/-- Which of two equally near candidates is taken. -/
inductive Tie where
  | up
  | toEven
  deriving Repr, DecidableEq

namespace Decimal

open Binary64 (Magnitude)

/-- The fraction `n * 2 ^ e / 10 ^ s` as numerator and denominator. -/
def scaled (n : Nat) (e s : Int) : Nat × Nat :=
  (n * Nat.pow 2 e.toNat * Nat.pow 10 (-s).toNat, Nat.pow 2 (-e).toNat * Nat.pow 10 s.toNat)

/-- A power of ten above a magnitude, by at most two: `30103 / 100000` is just above `log10 2`. -/
def powerAbove (m : Magnitude) : Int :=
  let bits : Int := (m.significand.log2 : Int) + 1 + m.exponent
  bits * 30103 / 100000 + 1

/-- The multiple of `10 ^ s` that reads back to `m`, if there is one: of the two multiples next to
`m` the nearer one in the interval of reals that round to `m`.  The interval has its ends when the
significand is even, and its lower half is short where the next smaller value is closer
(`isPowerOfTwo`).  Units are quarters of the last place. -/
def onGrid? (tie : Tie) (m : Magnitude) (isPowerOfTwo : Bool) (s : Int) : Option Nat :=
  let (unit, den) := scaled 1 (m.exponent - 2) s
  let value := 4 * m.significand * unit
  let low := value - (if isPowerOfTwo then 1 else 2) * unit
  let high := value + 2 * unit
  let down := value / den
  let up := down + 1
  let inside (c : Nat) : Bool :=
    if m.significand % 2 = 0 then low ≤ c * den && c * den ≤ high
    else low < c * den && c * den < high
  match inside down, inside up with
  | false, false => none
  | true, false => some down
  | false, true => some up
  | true, true =>
    let rest := 2 * (value - down * den)
    if rest < den then some down
    else if den < rest then some up
    else match tie with
      | .up => some up
      | .toEven => some (if down % 2 = 0 then down else up)

/-- The shortest decimal of a magnitude: the coarsest grid of multiples of a power of ten that has
a point which reads back.  Seventeen digits always suffice. -/
def ofMagnitude (tie : Tie) (m : Magnitude) (isPowerOfTwo : Bool) : Decimal :=
  let top := powerAbove m
  let found := (List.range 21).findSome? fun (i : Nat) =>
    (onGrid? tie m isPowerOfTwo (top - i)).map fun c => (⟨c, top - i⟩ : Decimal)
  found.getD ⟨0, 0⟩

/-- The shortest decimal of the absolute value of a float; `none` unless it is finite. -/
def shortest (tie : Tie) (x : Float) : Option Decimal :=
  (Binary64.decode x).map fun m =>
    if m.significand = 0 then ⟨0, 0⟩
    else ofMagnitude tie m (Binary64.fractionBits x = 0 && 1 < Binary64.exponentBits x)

/-- How many digits a natural number has; zero has one. -/
def digitCount (n : Nat) : Nat := (Nat.toDigits 10 n).length

/-- The nearest float; infinite above the range.  Exponents far outside the range are answered
without computing the power. -/
def toFloat (d : Decimal) : Float :=
  if d.coefficient = 0 then 0.0
  else
    let top : Int := digitCount d.coefficient + d.exponent
    if 310 < top then 1.0 / 0.0
    else if top < -330 then 0.0
    else Float.ofScientific d.coefficient (d.exponent < 0) d.exponent.natAbs

/-- The natural number nearest to `num / den`; a half goes to the even one. -/
def roundQuotient (num den : Nat) : Nat :=
  let q := num / den
  let rest := 2 * (num % den)
  if rest < den then q else if den < rest then q + 1 else q + q % 2

/-- The nearest decimal with `digits` significant digits. -/
def significant (digits : Nat) (m : Magnitude) : Decimal :=
  let top := powerAbove m - digits
  let found := (List.range 4).findSome? fun (i : Nat) =>
    let (num, den) := scaled m.significand m.exponent (top - i)
    if Nat.pow 10 (digits - 1) ≤ num / den then
      some (⟨roundQuotient num den, top - i⟩ : Decimal)
    else none
  found.getD ⟨0, 0⟩

end Decimal

/-- A float rounded to `digits` significant decimal digits and read back. -/
def roundSignificant (digits : Nat) (x : Float) : Float :=
  match Binary64.decode x with
  | none => x
  | some m =>
    if m.significand = 0 then x
    else
      let y := (Decimal.significant digits m).toFloat
      if Binary64.isNegative x then -y else y

/-! ## Layout of numbers -/

/-- The decisions of a number format.  The point of a decimal is the power of ten just above it:
the point of 5 is 1, that of 0.05 is -1. -/
structure Layout where
  /-- Which of two equally near shortest decimals is written. -/
  tie : Tie
  /-- The points that are written positionally, from the least to the greatest; all if absent. -/
  positional : Option (Int × Int)
  /-- Integral values written positionally end in `.0`. -/
  marksIntegers : Bool

namespace Layout

/-- A row of zeros. -/
def zeros (count : Nat) : String := String.ofList (List.replicate count '0')

/-- Positional text: the digits with the point after `point` of them. -/
def fixed (layout : Layout) (digits : List Char) (point : Int) : String :=
  let count := digits.length
  if point ≤ 0 then
    "0." ++ zeros (-point).toNat ++ String.ofList digits
  else if (count : Int) ≤ point then
    String.ofList digits ++ zeros (point.toNat - count)
      ++ (if layout.marksIntegers then ".0" else "")
  else
    String.ofList (digits.take point.toNat) ++ "." ++ String.ofList (digits.drop point.toNat)

/-- Scientific text: one digit before the point, and an exponent with its sign. -/
def scientific (digits : List Char) (point : Int) : String :=
  let exponent := point - 1
  let sign := if exponent < 0 then "-" else "+"
  let tail := match digits.drop 1 with
    | [] => ""
    | rest => "." ++ String.ofList rest
  String.ofList (digits.take 1) ++ tail ++ "e" ++ sign ++ toString exponent.natAbs

/-- The text of a decimal. -/
def writeDecimal (layout : Layout) (d : Decimal) : String :=
  if d.coefficient = 0 then "0" ++ (if layout.marksIntegers then ".0" else "")
  else
    let digits := Nat.toDigits 10 d.coefficient
    let point : Int := digits.length + d.exponent
    let isFixed := match layout.positional with
      | none => true
      | some (low, high) => low ≤ point && point ≤ high
    if isFixed then layout.fixed digits point else scientific digits point

/-- The text of a float; values that are not finite are `NaN`, `inf` and `-inf`. -/
def write (layout : Layout) (x : Float) : String :=
  let sign := if Binary64.isNegative x then "-" else ""
  match Decimal.shortest layout.tie x with
  | some d => sign ++ layout.writeDecimal d
  | none => if x == x then sign ++ "inf" else "NaN"

end Layout

end ControlBlocks

import ControlBlocks.Block.Basic

/-!
# Real arithmetic

Real signals combined without memory.  An input outside the domain of an operation is a fault.

* `RealMath.add`, `subtract`, `multiply`, `divide`, `modulo`, `average`, `max`, `min`, `abs` — two
  signals or one;
* `RealMath.addParameter`, `multiplyByParameter`, `multiSum`, `multiMax`, `multiMin` — with
  parameters, or over a list of signals;
* `RealMath.round` — rounding to decimal places;
* `RealMath.Limiter`, `RealMath.Line` — a signal kept within limits, a straight line through two
  points;
* `Functions.sqrt`, `exp`, `log`, `log10`, `sin`, `cos`, `tan`, `asin`, `acos`, `atan`, `atan2` —
  elementary functions; angles are in radians.
-/

set_option autoImplicit false

namespace ControlBlocks

/-! ## Arithmetic -/

namespace RealMath

variable {α : Type} [Scalar α]

def abs : Block α α Unit α := .total "Abs" Scalar.magnitude

def add : Block α (α × α) Unit α := .total "Add" fun (u₁, u₂) => u₁ + u₂

def subtract : Block α (α × α) Unit α := .total "Subtract" fun (u₁, u₂) => u₁ - u₂

def multiply : Block α (α × α) Unit α := .total "Multiply" fun (u₁, u₂) => u₁ * u₂

def divide : Block α (α × α) Unit α :=
  .memoryless "Divide" fun (u₁, u₂) =>
    if u₂ == 0 then .error (.domain "Divide" "division by zero" u₂) else .ok (u₁ / u₂)

/-- The remainder after whole multiples of the second input, with its sign. -/
def modulo : Block α (α × α) Unit α :=
  .memoryless "Modulo" fun (u₁, u₂) =>
    if u₂ == 0 then .error (.domain "Modulo" "modulo by zero" u₂)
    else .ok (Scalar.floorMod u₁ u₂)

def average : Block α (α × α) Unit α := .total "Average" fun (u₁, u₂) => 0.5 * (u₁ + u₂)

def max : Block α (α × α) Unit α := .total "Max" fun (u₁, u₂) => Scalar.larger u₁ u₂

def min : Block α (α × α) Unit α := .total "Min" fun (u₁, u₂) => Scalar.smaller u₁ u₂

def addParameter (p : α) : Block α α Unit α := .total "AddParameter" fun u => u + p

def multiplyByParameter (k : α) : Block α α Unit α := .total "MultiplyByParameter" fun u => k * u

/-- Rounding to `n` decimal places, which may be negative; a half goes away from zero. -/
def roundTo (n : Int) (u : α) : α :=
  let unit : α := Scalar.powerOfTen n
  if 0 < u then Scalar.floor (u * unit + 0.5) / unit else Scalar.ceil (u * unit - 0.5) / unit

def round (n : Int) : Block α α Unit α := .total "Round" (roundTo n)

/-- The weighted sum of as many inputs as there are gains; zero of no inputs, whatever the
gains. -/
def weightedSum (gains inputs : List α) : Except (Fault α) α :=
  if inputs.isEmpty then .ok 0
  else if inputs.length = gains.length then .ok (Scalar.sum (Scalar.products gains inputs))
  else .error (.domain "MultiSum" "input count must match number of gains"
    ((inputs.length : Int) : α))

def multiSum (gains : List α) : Block α (List α) Unit α :=
  .memoryless "MultiSum" (weightedSum gains)

/-- The inputs of a list combined two by two; at least one. -/
def combined (block : String) (f : α → α → α) (inputs : List α) : Except (Fault α) α :=
  match Scalar.reduce? f inputs with
  | some y => .ok y
  | none => .error (.domain block "at least one input required" 0)

def multiMax : Block α (List α) Unit α :=
  .memoryless "MultiMax" (combined "MultiMax" Scalar.larger)

def multiMin : Block α (List α) Unit α :=
  .memoryless "MultiMin" (combined "MultiMin" Scalar.smaller)

/-- The limits of a signal. -/
structure Limiter (α : Type) where
  upper : α
  lower : α

/-- The limited signal; the lower limit has to be below the upper one. -/
def Limiter.build (p : Limiter α) : Except (Fault α) (Block α α Unit α) :=
  if p.lower < p.upper then .ok (.total "Limiter" (Scalar.clamp p.lower p.upper))
  else .error (.configuration "Limiter" "uMin must be smaller than uMax")

/-- Which ends of a line are held. -/
structure Line where
  limitBelow : Bool
  limitAbove : Bool

/-- Two points of a line and the place where it is evaluated. -/
structure Line.Input (α : Type) where
  x₁ : α
  f₁ : α
  x₂ : α
  f₂ : α
  u : α

/-- The line through two points.  Before evaluation the place is kept above the first point or
below the second, as far as the ends are held; two points at one place give the first value. -/
def Line.value (p : Line) (d : Line.Input α) : α :=
  let (a, b) :=
    if d.x₂ == d.x₁ then (d.f₁, 0)
    else
      let b := (d.f₂ - d.f₁) / (d.x₂ - d.x₁)
      (d.f₂ - b * d.x₂, b)
  let x := if p.limitBelow then Scalar.larger d.u d.x₁ else d.u
  let x := if p.limitAbove then Scalar.smaller x d.x₂ else x
  a + b * x

def Line.block (p : Line) : Block α (Line.Input α) Unit α := .total "Line" p.value

instance : OfDatum α (Line.Input α) where
  ofDatum? d := do
    let [x1, f1, x2, f2, u] ← d.members ["x1", "f1", "x2", "f2", "u"] | none
    return ⟨← required x1, ← required f1, ← required x2, ← required f2, ← required u⟩

end RealMath

/-! ## Elementary functions -/

namespace Functions

variable {α : Type} [Elementary α]

def sqrt : Block α α Unit α :=
  .memoryless "Sqrt" fun u =>
    if u < 0 then .error (.domain "Sqrt" "input must be non-negative" u)
    else .ok (Elementary.sqrt u)

def exp : Block α α Unit α := .total "Exp" Elementary.exp

def log : Block α α Unit α :=
  .memoryless "Log" fun u =>
    if u ≤ 0 then .error (.domain "Log" "input must be positive" u) else .ok (Elementary.log u)

def log10 : Block α α Unit α :=
  .memoryless "Log10" fun u =>
    if u ≤ 0 then .error (.domain "Log10" "input must be positive" u) else .ok (Elementary.log10 u)

def sin : Block α α Unit α := .total "Sin" Elementary.sin

def cos : Block α α Unit α := .total "Cos" Elementary.cos

def tan : Block α α Unit α := .total "Tan" Elementary.tan

/-- An inverse function of `[-1, 1]`. -/
def inverse (block : String) (f : α → α) : Block α α Unit α :=
  .memoryless block fun u =>
    if -1 ≤ u ∧ u ≤ 1 then .ok (f u) else .error (.domain block "input must be in [-1, 1]" u)

def asin : Block α α Unit α := inverse "Asin" Elementary.asin

def acos : Block α α Unit α := inverse "Acos" Elementary.acos

def atan : Block α α Unit α := .total "Atan" Elementary.atan

/-- The angle of the point `(u₂, u₁)`. -/
def atan2 : Block α (α × α) Unit α := .total "Atan2" fun (u₁, u₂) => Elementary.atan2 u₁ u₂

end Functions

end ControlBlocks

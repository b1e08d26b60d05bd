import ControlBlocks.Block.Basic

/-!
# Truth values and integers

Discrete signals combined without memory, turned into one another and into reals.

* `Logic.not`, `and`, `or`, `xor`, `nand`, `nor`, `multiAnd`, `multiOr` — gates;
* `Switch` — one of two signals of any type, chosen by a truth value;
* `IntegerMath.checked` — a result that has to fit;
* `IntegerMath.abs`, `add`, `subtract`, `multiply`, `addParameter`, `multiSum` — arithmetic;
* `IntegerMath.max`, `min`, `equal`, `less`, `greaterEqual`, `lessThreshold`,
  `greaterEqualThreshold` — comparisons;
* `Conversion.booleanToReal`, `booleanToInteger`, `integerToReal`, `realToInteger`;
* `Conversion.assert` — no output, a warning while its input is false.

Integer signals have 64 bits.  A result that does not fit is a fault; nothing wraps around.
-/

set_option autoImplicit false

namespace ControlBlocks

/-! ## Gates -/

namespace Logic

variable {α : Type}

def not : Block α Bool Unit Bool := .total "Not" fun u => !u

def and : Block α (Bool × Bool) Unit Bool := .total "And" fun (u₁, u₂) => u₁ && u₂

def or : Block α (Bool × Bool) Unit Bool := .total "Or" fun (u₁, u₂) => u₁ || u₂

def xor : Block α (Bool × Bool) Unit Bool := .total "Xor" fun (u₁, u₂) => u₁ != u₂

def nand : Block α (Bool × Bool) Unit Bool := .total "Nand" fun (u₁, u₂) => !(u₁ && u₂)

def nor : Block α (Bool × Bool) Unit Bool := .total "Nor" fun (u₁, u₂) => !(u₁ || u₂)

/-- True when there are inputs and all of them are true. -/
def multiAnd : Block α (List Bool) Unit Bool :=
  .total "MultiAnd" fun u => !u.isEmpty && u.all id

/-- True when some input is true. -/
def multiOr : Block α (List Bool) Unit Bool := .total "MultiOr" fun u => u.any id

end Logic

namespace Switch

/-- The two signals of a switch and the choice between them. -/
structure Input (τ : Type) where
  first : τ
  /-- True for the first signal. -/
  choice : Bool
  second : τ

/-- The signal that is chosen. -/
def Input.chosen {τ : Type} (u : Input τ) : τ := if u.choice then u.first else u.second

/-- The switch between two signals. -/
def block (α τ : Type) : Block α (Input τ) Unit τ := .total "Switch" Input.chosen

instance (α τ : Type) [OfDatum α τ] : OfDatum α (Input τ) where
  ofDatum? d := do
    let [u1, u2, u3] ← d.members ["u1", "u2", "u3"] | none
    return ⟨← required u1, ← required u2, ← required u3⟩

end Switch

/-! ## Integers -/

namespace IntegerMath

variable {α : Type}

/-- A result that has to fit into 64 bits; the fault names the input `u`. -/
def checked [Scalar α] (block : String) (u result : Int) : Except (Fault α) Int :=
  if InInt64 result then .ok result else .error (.domain block "integer overflow" (u : α))

def abs [Scalar α] : Block α Int Unit Int :=
  .memoryless "Abs" fun u => checked "Abs" u u.natAbs

def add [Scalar α] : Block α (Int × Int) Unit Int :=
  .memoryless "Add" fun (u₁, u₂) => checked "Add" u₁ (u₁ + u₂)

def subtract [Scalar α] : Block α (Int × Int) Unit Int :=
  .memoryless "Subtract" fun (u₁, u₂) => checked "Subtract" u₁ (u₁ - u₂)

def multiply [Scalar α] : Block α (Int × Int) Unit Int :=
  .memoryless "Multiply" fun (u₁, u₂) => checked "Multiply" u₁ (u₁ * u₂)

/-- The input plus a constant. -/
def addParameter [Scalar α] (p : Int) : Block α Int Unit Int :=
  .memoryless "AddParameter" fun u => checked "AddParameter" u (u + p)

/-- The weighted sum over the shorter of gains and inputs.  Every product and every partial sum
has to fit. -/
def weightedSum [Scalar α] (gains inputs : List Int) : Except (Fault α) Int :=
  (gains.zip inputs).foldlM
    (fun sum (k, u) => do
      let term ← checked "MultiSum" u (k * u)
      checked "MultiSum" u (sum + term))
    0

def multiSum [Scalar α] (gains : List Int) : Block α (List Int) Unit Int :=
  .memoryless "MultiSum" (weightedSum gains)

def max : Block α (Int × Int) Unit Int := .total "Max" fun (u₁, u₂) => Max.max u₁ u₂

def min : Block α (Int × Int) Unit Int := .total "Min" fun (u₁, u₂) => Min.min u₁ u₂

def equal : Block α (Int × Int) Unit Bool := .total "Equal" fun (u₁, u₂) => decide (u₁ = u₂)

def less : Block α (Int × Int) Unit Bool := .total "Less" fun (u₁, u₂) => decide (u₁ < u₂)

def greaterEqual : Block α (Int × Int) Unit Bool :=
  .total "GreaterEqual" fun (u₁, u₂) => decide (u₂ ≤ u₁)

/-- True below a constant. -/
def lessThreshold (t : Int) : Block α Int Unit Bool :=
  .total "LessThreshold" fun u => decide (u < t)

/-- True at a constant and above it. -/
def greaterEqualThreshold (t : Int) : Block α Int Unit Bool :=
  .total "GreaterEqualThreshold" fun u => decide (t ≤ u)

end IntegerMath

/-! ## Conversions -/

namespace Conversion

variable {α : Type}

def booleanToReal (whenTrue whenFalse : α) : Block α Bool Unit α :=
  .total "BooleanToReal" fun u => if u then whenTrue else whenFalse

def booleanToInteger (whenTrue whenFalse : Int) : Block α Bool Unit Int :=
  .total "BooleanToInteger" fun u => if u then whenTrue else whenFalse

def integerToReal [Scalar α] : Block α Int Unit α := .total "IntegerToReal" fun u => (u : α)

/-- The integer part, toward zero; it has to fit into 64 bits. -/
def truncated [Scalar α] (u : α) : Except (Fault α) Int :=
  match Scalar.wholePart? u with
  | some n =>
    if InInt64 n then .ok n
    else .error (.domain "RealToInteger" "value out of integer range" u)
  | none => .error (.domain "RealToInteger" "value out of integer range" u)

def realToInteger [Scalar α] : Block α α Unit Int := .memoryless "RealToInteger" truncated

/-- Whether the condition of an assertion held. -/
structure Verdict where
  holds : Bool
  deriving DecidableEq, Repr

/-- Warns with `message` whenever its input is false. -/
def assert (message : String) : Block α Bool Unit Verdict :=
  { Block.total "Assert" Verdict.mk with
    warnings := fun v => if v.holds then [] else [message] }

/-- An assertion has no output of its own. -/
instance : ToDatum α Verdict := ⟨fun _ => .null⟩

end Conversion

end ControlBlocks

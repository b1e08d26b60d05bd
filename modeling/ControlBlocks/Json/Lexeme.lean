import ControlBlocks.Datum.Basic
import ControlBlocks.Decimal.Shortest

/-!
# Numbers and quoted texts of documents

* `Json.Numeral` — a number as it is spelled; `Json.numeral` reads one;
* `Numeral.value?` — its value: an integer spelling within 64 bits is an integer, anything else a
  real; a spelling out of the range of reals has no value;
* `Json.quoted` — a quoted text.

All of these read from the start of a text and give what follows.
-/

set_option autoImplicit false

namespace ControlBlocks.Json

/-- The blanks between the parts of a document. -/
def isBlank (c : Char) : Bool := c = ' ' || c = '\n' || c = '\t' || c = '\r'

/-- The text after its leading blanks. -/
def skipBlanks (cs : List Char) : List Char := cs.dropWhile isBlank

/-! ## Numbers -/

/-- A number as it is spelled: sign, digits before the point, digits after it and the exponent. -/
structure Numeral where
  negative : Bool
  whole : List Char
  fraction : Option (List Char)
  exponent : Option Int
  deriving DecidableEq, Repr

/-- The digits at the start of a text and what follows them; at least one. -/
def digits (cs : List Char) : Option (List Char × List Char) :=
  match cs.takeWhile Char.isDigit with
  | [] => none
  | ds => some (ds, cs.dropWhile Char.isDigit)

/-- The integer part of a number: no zero before other digits. -/
def wholeDigits (cs : List Char) : Option (List Char × List Char) :=
  match digits cs with
  | some ('0' :: _ :: _, _) => none
  | other => other

/-- The digits after a point; `some` with none of them where there is no point. -/
def fractionDigits : List Char → Option (Option (List Char) × List Char)
  | '.' :: rest => (digits rest).map fun (ds, rest) => (some ds, rest)
  | cs => some (none, cs)

/-- The exponent of ten; absent where the text has none. -/
def exponentPart : List Char → Option (Option Int × List Char)
  | c :: rest =>
    if c = 'e' || c = 'E' then
      let (negative, rest) := match rest with
        | '-' :: rest => (true, rest)
        | '+' :: rest => (false, rest)
        | rest => (false, rest)
      (digits rest).map fun (ds, rest) =>
        let n : Int := Nat.ofDigitChars 10 ds 0
        (some (if negative then -n else n), rest)
    else some (none, c :: rest)
  | [] => some (none, [])

/-- The spelling of a number. -/
def numeral (cs : List Char) : Option (Numeral × List Char) := do
  let (negative, cs) := match cs with
    | '-' :: rest => (true, rest)
    | cs => (false, cs)
  let (whole, cs) ← wholeDigits cs
  let (fraction, cs) ← fractionDigits cs
  let (exponent, cs) ← exponentPart cs
  return (⟨negative, whole, fraction, exponent⟩, cs)

namespace Numeral

/-- The decimal without its sign. -/
def decimal (n : Numeral) : Decimal :=
  let places := n.fraction.getD []
  ⟨Nat.ofDigitChars 10 (n.whole ++ places) 0, n.exponent.getD 0 - places.length⟩

/-- The nearest real; none above the range. -/
def real? (n : Numeral) : Option (Datum Float) :=
  let x := n.decimal.toFloat
  if Scalar.isFinite x then some (.real (if n.negative then -x else x)) else none

/-- The integer of a spelling without point and exponent, where 64 bits hold it.  Minus zero is no
integer. -/
def int? (n : Numeral) : Option Int :=
  if n.fraction.isSome || n.exponent.isSome then none
  else
    let magnitude := Nat.ofDigitChars 10 n.whole 0
    if n.negative then
      if magnitude ≠ 0 ∧ magnitude ≤ 0x8000000000000000 then some (-magnitude) else none
    else if magnitude < 0x10000000000000000 then some magnitude
    else none

/-- The value of a spelling. -/
def value? (n : Numeral) : Option (Datum Float) :=
  match n.int? with
  | some k => some (.int k)
  | none => n.real?

end Numeral

/-! ## Quoted texts -/

/-- The value of a hexadecimal digit. -/
def hexDigit? (c : Char) : Option Nat :=
  if c.isDigit then some (c.toNat - '0'.toNat)
  else if 'a' ≤ c ∧ c ≤ 'f' then some (c.toNat - 'a'.toNat + 10)
  else if 'A' ≤ c ∧ c ≤ 'F' then some (c.toNat - 'A'.toNat + 10)
  else none

/-- Four hexadecimal digits. -/
def hexUnit : List Char → Option (Nat × List Char)
  | a :: b :: c :: d :: rest => do
    let n := 4096 * (← hexDigit? a) + 256 * (← hexDigit? b) + 16 * (← hexDigit? c) + (← hexDigit? d)
    return (n, rest)
  | _ => none

/-- What follows a `\u`: one code unit, or two that make a character above the basic plane; half
of such a pair alone is refused. -/
def unicodeEscape (cs : List Char) : Option (Char × List Char) := do
  let (first, cs) ← hexUnit cs
  if 0xDC00 ≤ first ∧ first ≤ 0xDFFF then none
  else if 0xD800 ≤ first ∧ first ≤ 0xDBFF then
    match cs with
    | '\\' :: 'u' :: rest =>
      let (second, rest) ← hexUnit rest
      if 0xDC00 ≤ second ∧ second ≤ 0xDFFF then
        return (Char.ofNat (0x10000 + (first - 0xD800) * 0x400 + (second - 0xDC00)), rest)
      else none
    | _ => none
  else return (Char.ofNat first, cs)

/-- What one letter after a backslash stands for. -/
def letterEscape? : Char → Option Char
  | '"' => some '"'
  | '\\' => some '\\'
  | '/' => some '/'
  | 'b' => some '\x08'
  | 'f' => some '\x0c'
  | 'n' => some '\n'
  | 'r' => some '\r'
  | 't' => some '\t'
  | _ => none

/-- What follows a backslash. -/
def escaped : List Char → Option (Char × List Char)
  | 'u' :: rest => unicodeEscape rest
  | c :: rest => (letterEscape? c).map fun e => (e, rest)
  | [] => none

/-- The rest of a quoted text; `done` holds its characters so far, the last one first, and `fuel`
is at least the length of the text. -/
def quotedRest : (fuel : Nat) → (done : List Char) → List Char → Option (String × List Char)
  | 0, _, _ => none
  | _ + 1, _, [] => none
  | fuel + 1, done, c :: rest =>
    if c = '"' then some (String.ofList done.reverse, rest)
    else if c = '\\' then
      match escaped rest with
      | none => none
      | some (e, rest) => quotedRest fuel (e :: done) rest
    else if c.toNat < 32 then none
    else quotedRest fuel (c :: done) rest

/-- A quoted text. -/
def quoted : List Char → Option (String × List Char)
  | '"' :: rest => quotedRest (rest.length + 1) [] rest
  | _ => none

end ControlBlocks.Json

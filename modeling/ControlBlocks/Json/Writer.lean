import ControlBlocks.Datum.Basic
import ControlBlocks.Decimal.Shortest

/-!
# Writing documents

* `Json.numbers` — the layout of reals in documents;
* `Json.compact` — a document without blanks;
* `Json.pretty` — one entry a line, two blanks a level.
-/

set_option autoImplicit false

namespace ControlBlocks.Json

/-- Reals from `0.00001` up to below `1e+16` are written positionally, the others with a signed
exponent; an integral real keeps its `.0`. -/
def numbers : Layout := ⟨.toEven, some (-4, 16), true⟩

/-- The two hexadecimal digits of a control character. -/
def hexPair (n : Nat) : List Char := [Nat.digitChar (n / 16), Nat.digitChar (n % 16)]

/-- A character inside a quoted text. -/
def escape (c : Char) : List Char :=
  if c = '"' then ['\\', '"']
  else if c = '\\' then ['\\', '\\']
  else if c = '\n' then ['\\', 'n']
  else if c = '\r' then ['\\', 'r']
  else if c = '\t' then ['\\', 't']
  else if c = '\x08' then ['\\', 'b']
  else if c = '\x0c' then ['\\', 'f']
  else if c.toNat < 32 then ['\\', 'u', '0', '0'] ++ hexPair c.toNat
  else [c]

/-- A quoted text. -/
def quote (s : String) : String := "\"" ++ String.ofList (s.toList.flatMap escape) ++ "\""

/-- A real; one that is not finite has no spelling and is written `null`. -/
def real (x : Float) : String := if Scalar.isFinite x then numbers.write x else "null"

mutual

/-- A document without blanks. -/
def compact : Datum Float → String
  | .null => "null"
  | .bool b => if b then "true" else "false"
  | .int n => toString n
  | .real x => real x
  | .text s => quote s
  | .list items => "[" ++ String.intercalate "," (compactItems items) ++ "]"
  | .record fields => "\x7b" ++ String.intercalate "," (compactFields fields) ++ "\x7d"

/-- The items of a list. -/
def compactItems : List (Datum Float) → List String
  | [] => []
  | d :: rest => compact d :: compactItems rest

/-- The entries of a record. -/
def compactFields : List (String × Datum Float) → List String
  | [] => []
  | (k, d) :: rest => (quote k ++ ":" ++ compact d) :: compactFields rest

end

/-- A new line at a level of nesting. -/
def newline (level : Nat) : String := "\n" ++ String.ofList (List.replicate (2 * level) ' ')

/-- Parts between brackets, each on a line of its own; brackets alone around nothing. -/
def block (opening closing : String) (level : Nat) (parts : List String) : String :=
  if parts.isEmpty then opening ++ closing
  else opening ++ newline (level + 1) ++ String.intercalate ("," ++ newline (level + 1)) parts
    ++ newline level ++ closing

mutual

/-- A document at a level of nesting, one item or entry a line. -/
def prettyAt (level : Nat) : Datum Float → String
  | .null => "null"
  | .bool b => if b then "true" else "false"
  | .int n => toString n
  | .real x => real x
  | .text s => quote s
  | .list items => block "[" "]" level (prettyItems (level + 1) items)
  | .record fields => block "\x7b" "\x7d" level (prettyFields (level + 1) fields)

/-- The items of a list. -/
def prettyItems (level : Nat) : List (Datum Float) → List String
  | [] => []
  | d :: rest => prettyAt level d :: prettyItems level rest

/-- The entries of a record. -/
def prettyFields (level : Nat) : List (String × Datum Float) → List String
  | [] => []
  | (k, d) :: rest => (quote k ++ ": " ++ prettyAt level d) :: prettyFields level rest

end

/-- A document on several lines, two blanks a level. -/
def pretty (d : Datum Float) : String := prettyAt 0 d

end ControlBlocks.Json

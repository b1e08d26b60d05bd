import ControlBlocks.Json.Lexeme

/-!
# Skipping values

A value that nobody reads only has to be well formed: it may be nested to any depth, its numbers may
be out of range, and its texts may hold halves of characters.

* `Json.skipQuoted` — the text after a quoted text;
* `Json.skip` — the text after a value.
-/

set_option autoImplicit false

namespace ControlBlocks.Json

/-- The text after the closing quote.  A unit of four hexadecimal digits stands even where it is no
character. -/
def skipQuotedRest : List Char → Option (List Char)
  | [] => none
  | '"' :: rest => some rest
  | '\\' :: 'u' :: a :: b :: c :: d :: rest =>
    if [a, b, c, d].all fun h => (hexDigit? h).isSome then skipQuotedRest rest else none
  | '\\' :: c :: rest => if (letterEscape? c).isSome then skipQuotedRest rest else none
  | c :: rest => if c = '\\' || c.toNat < 32 then none else skipQuotedRest rest

/-- The text after a quoted text. -/
def skipQuoted : List Char → Option (List Char)
  | '"' :: rest => skipQuotedRest rest
  | _ => none

/-- The text after a value without parts. -/
def skipPlain : List Char → Option (List Char)
  | 'n' :: 'u' :: 'l' :: 'l' :: rest => some rest
  | 't' :: 'r' :: 'u' :: 'e' :: rest => some rest
  | 'f' :: 'a' :: 'l' :: 's' :: 'e' :: rest => some rest
  | '"' :: rest => skipQuotedRest rest
  | cs => (numeral cs).map (·.2)

/-- What encloses a value. -/
inductive Enclosure where
  | list
  | record
  deriving DecidableEq, Repr

/-- What comes next in the text. -/
inductive Next where
  | value
  /-- A key with its value. -/
  | entry
  /-- A comma or a closing bracket; the end where nothing is open. -/
  | more
  deriving DecidableEq, Repr

/-- What comes after a comma. -/
def Enclosure.next : Enclosure → Next
  | .list => .value
  | .record => .entry

/-- The bracket that closes an enclosure. -/
def Enclosure.closing : Enclosure → Char
  | .list => ']'
  | .record => '\x7d'

/-- The state behind an opening bracket: nothing in the enclosure, or its first part. -/
def enter (e : Enclosure) (around : List Enclosure) (cs : List Char) :
    Next × List Enclosure × List Char :=
  match skipBlanks cs with
  | c :: rest => if c = e.closing then (.more, around, rest) else (e.next, e :: around, c :: rest)
  | [] => (e.next, e :: around, [])

/-- One part of the text skipped, inside the enclosures `around`, the inmost first. -/
def skipPart : Next → (around : List Enclosure) → List Char →
    Option (Next × List Enclosure × List Char)
  | .value, around, cs =>
    match skipBlanks cs with
    | '[' :: rest => some (enter .list around rest)
    | '\x7b' :: rest => some (enter .record around rest)
    | cs => (skipPlain cs).map fun rest => (.more, around, rest)
  | .entry, around, cs =>
    match (skipQuoted (skipBlanks cs)).map skipBlanks with
    | some (':' :: rest) => some (.value, around, rest)
    | _ => none
  | .more, e :: around, cs =>
    match skipBlanks cs with
    | c :: rest =>
      if c = ',' then some (e.next, e :: around, rest)
      else if c = e.closing then some (.more, around, rest)
      else none
    | [] => none
  | .more, [], _ => none

/-- Parts skipped until nothing is open; `fuel` is above the length of the text. -/
def skipParts : (fuel : Nat) → Next → (around : List Enclosure) → List Char → Option (List Char)
  | _, .more, [], cs => some cs
  | 0, _, _, _ => none
  | fuel + 1, next, around, cs =>
    match skipPart next around cs with
    | some (next, around, rest) => skipParts fuel next around rest
    | none => none

/-- The text after a value. -/
def skip (cs : List Char) : Option (List Char) := skipParts (cs.length + 1) .value [] cs

end ControlBlocks.Json

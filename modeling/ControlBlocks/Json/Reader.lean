import ControlBlocks.Json.Skip

/-!
# Reading documents

* `Json.Shape` — what of a document is of interest;
* `Json.value` — a value at the start of a text;
* `Json.parseShape?`, `Json.parse?` — a document of some shape, or all of it.

What is read is nested at most 127 deep, and its numbers are in range; what is skipped is only well
formed.
-/

set_option autoImplicit false

namespace ControlBlocks.Json

/-- What of a document is of interest: all of it, or some fields of a record, each with a shape of
its own.  The other entries of such a record are skipped; a list gives the fields by position. -/
inductive Shape where
  | whole
  | fields (named : List (String × Shape))

namespace Shape

/-- The shape of the value under a key; none where it is skipped. -/
def under? : Shape → String → Option Shape
  | .whole, _ => some .whole
  | .fields named, key => named.lookup key

/-- The shape of the first item of a list. -/
def first : Shape → Shape
  | .fields ((_, shape) :: _) => shape
  | _ => .whole

/-- The shape of the list of the other items. -/
def others : Shape → Shape
  | .fields (_ :: rest) => .fields rest
  | _ => .whole

end Shape

/-- The items of a list up to its closing bracket, `read` reading one of them. -/
def items (read : Shape → List Char → Option (Datum Float × List Char)) :
    (fuel : Nat) → Shape → (done : List (Datum Float)) → List Char →
    Option (Datum Float × List Char)
  | 0, _, _, _ => none
  | fuel + 1, shape, done, cs =>
    match read shape.first cs with
    | none => none
    | some (d, rest) =>
      match skipBlanks rest with
      | ',' :: rest => items read fuel shape.others (d :: done) rest
      | ']' :: rest => some (.list (d :: done).reverse, rest)
      | _ => none

/-- The value under a key as an entry; no entry where it is skipped. -/
def entry (read : Shape → List Char → Option (Datum Float × List Char)) (shape : Shape)
    (key : String) (cs : List Char) : Option (List (String × Datum Float) × List Char) :=
  match shape.under? key with
  | some shape => (read shape cs).map fun (d, rest) => ([(key, d)], rest)
  | none => (skip cs).map fun rest => ([], rest)

/-- The entries of a record up to its closing bracket, `read` reading one value. -/
def entries (read : Shape → List Char → Option (Datum Float × List Char)) :
    (fuel : Nat) → Shape → (done : List (String × Datum Float)) → List Char →
    Option (Datum Float × List Char)
  | 0, _, _, _ => none
  | fuel + 1, shape, done, cs =>
    match quoted (skipBlanks cs) with
    | none => none
    | some (key, rest) =>
      match skipBlanks rest with
      | ':' :: rest =>
        match entry read shape key rest with
        | none => none
        | some (e, rest) =>
          match skipBlanks rest with
          | ',' :: rest => entries read fuel shape (e ++ done) rest
          | '\x7d' :: rest => some (.record (e ++ done).reverse, rest)
          | _ => none
      | _ => none

/-- A number. -/
def number (cs : List Char) : Option (Datum Float × List Char) :=
  (numeral cs).bind fun (n, rest) => n.value?.map fun d => (d, rest)

/-- A value at the start of a text, nested at most `depth` deep. -/
def value : (depth : Nat) → Shape → List Char → Option (Datum Float × List Char)
  | depth, shape, cs =>
    match skipBlanks cs with
    | 'n' :: 'u' :: 'l' :: 'l' :: rest => some (.null, rest)
    | 't' :: 'r' :: 'u' :: 'e' :: rest => some (.bool true, rest)
    | 'f' :: 'a' :: 'l' :: 's' :: 'e' :: rest => some (.bool false, rest)
    | '"' :: rest => (quoted ('"' :: rest)).map fun (s, rest) => (.text s, rest)
    | '[' :: rest =>
      match depth with
      | 0 => none
      | depth + 1 =>
        match skipBlanks rest with
        | ']' :: rest => some (.list [], rest)
        | rest => items (value depth) (rest.length + 1) shape [] rest
    | '\x7b' :: rest =>
      match depth with
      | 0 => none
      | depth + 1 =>
        match skipBlanks rest with
        | '\x7d' :: rest => some (.record [], rest)
        | rest => entries (value depth) (rest.length + 1) shape [] rest
    | cs => number cs

/-- The deepest nesting that is read. -/
def maxDepth : Nat := 127

/-- A document of a shape. -/
def parseShape? (shape : Shape) (s : String) : Option (Datum Float) :=
  match value maxDepth shape s.toList with
  | some (d, rest) => if (skipBlanks rest).isEmpty then some d else none
  | none => none

/-- A whole document. -/
def parse? (s : String) : Option (Datum Float) := parseShape? .whole s

end ControlBlocks.Json

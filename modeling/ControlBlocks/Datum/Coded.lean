import ControlBlocks.Datum.Basic

/-!
# Coded types

Types whose values can be written as data or read from it.

* `ToDatum α τ`, `OfDatum α τ` — the two directions for a type `τ` over reals of type `α`;
* `Datum.members` — the fields of a structure, by name from a record or by position from a list;
* `required`, `optional` — one field of a structure.

Reading is strict about kinds: a whole number may stand for a real, nothing else is converted, and
integers stay within 64 bits.  Entries of a record that a structure does not have are ignored.
-/

set_option autoImplicit false

namespace ControlBlocks

/-- Values of `τ` can be written as data. -/
class ToDatum (α : Type) (τ : Type) where
  toDatum : τ → Datum α

/-- Values of `τ` can be read from data. -/
class OfDatum (α : Type) (τ : Type) where
  ofDatum? : Datum α → Option τ

export ToDatum (toDatum)
export OfDatum (ofDatum?)

/-- The signed 64-bit integers. -/
def InInt64 (n : Int) : Prop := -0x8000000000000000 ≤ n ∧ n < 0x8000000000000000

instance (n : Int) : Decidable (InInt64 n) := by unfold InInt64; infer_instance

variable {α : Type}

instance : ToDatum α α := ⟨.real⟩

instance [Scalar α] : OfDatum α α where
  ofDatum?
    | .real x => some x
    | .int n => some (n : α)
    | _ => none

instance : ToDatum α Bool := ⟨.bool⟩

instance : OfDatum α Bool where
  ofDatum?
    | .bool b => some b
    | _ => none

instance : ToDatum α Int := ⟨.int⟩

instance : OfDatum α Int where
  ofDatum?
    | .int n => if InInt64 n then some n else none
    | _ => none

instance : ToDatum α Nat := ⟨fun n => .int n⟩

/-- Counters are unsigned 64-bit integers. -/
instance : OfDatum α Nat where
  ofDatum?
    | .int n => if 0 ≤ n ∧ n < 0x10000000000000000 then some n.toNat else none
    | _ => none

instance : ToDatum α String := ⟨.text⟩

instance : OfDatum α String where
  ofDatum?
    | .text s => some s
    | _ => none

instance : ToDatum α Unit := ⟨fun _ => .null⟩

/-- The memory of a block that has none. -/
instance : OfDatum α Unit where
  ofDatum?
    | .null => some ()
    | _ => none

instance : ToDatum α (Datum α) := ⟨id⟩

instance : OfDatum α (Datum α) := ⟨some⟩

instance {τ : Type} [ToDatum α τ] : ToDatum α (Option τ) where
  toDatum
    | none => .null
    | some x => toDatum x

instance {τ : Type} [OfDatum α τ] : OfDatum α (Option τ) where
  ofDatum?
    | .null => some none
    | d => (ofDatum? d).map some

instance {τ : Type} [ToDatum α τ] : ToDatum α (List τ) := ⟨fun xs => .list (xs.map toDatum)⟩

instance {τ : Type} [OfDatum α τ] : OfDatum α (List τ) where
  ofDatum?
    | .list items => items.mapM ofDatum?
    | _ => none

instance {τ υ : Type} [ToDatum α τ] [ToDatum α υ] : ToDatum α (τ × υ) :=
  ⟨fun p => .list [toDatum p.1, toDatum p.2]⟩

instance {τ υ : Type} [OfDatum α τ] [OfDatum α υ] : OfDatum α (τ × υ) where
  ofDatum?
    | .list [a, b] => do return (← ofDatum? a, ← ofDatum? b)
    | _ => none

namespace Datum

/-- The fields of a structure, in the order of `names`.  A record gives them by name (a name that
stands twice is refused), a list by position (all of them, and no more). -/
def members (names : List String) : Datum α → Option (List (Option (Datum α)))
  | .record fields =>
    if names.any fun n => 1 < fields.countP (·.1 = n) then none
    else some (names.map fun n => fields.lookup n)
  | .list items => if items.length = names.length then some (items.map some) else none
  | _ => none

/-- The fields of a structure whose last fields may be left out of a list. -/
def leadingMembers (names : List String) : Datum α → Option (List (Option (Datum α)))
  | .list items =>
    if items.length ≤ names.length then
      some (items.map some ++ List.replicate (names.length - items.length) none)
    else none
  | d => d.members names

end Datum

/-- A field that has to be there. -/
def required {τ : Type} [OfDatum α τ] (field : Option (Datum α)) : Option τ :=
  field.bind ofDatum?

/-- A field that may be missing. -/
def optional {τ : Type} [OfDatum α τ] : Option (Datum α) → Option (Option τ)
  | none => some none
  | some d => ofDatum? d

/-- A value with one of a few names, written as that name.  A record whose only entry is the name
with `null` is read as well. -/
def ofName? {τ : Type} (named : List (String × τ)) : Datum α → Option τ
  | .text s => named.lookup s
  | .record [(s, .null)] => named.lookup s
  | _ => none

end ControlBlocks

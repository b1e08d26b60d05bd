import ControlBlocks.Numeric.Scalar

/-!
# Data

What goes over a wire, into a snapshot and into a file: truth values, integers, reals, texts,
lists and records, over any type of reals.

* `Datum` — the tree of data;
* `Datum.bindReals` — every real replaced by a value;
* `Datum.stored` — the form that is kept: a real that is not finite is kept as `null`;
* `Datum.sorted` — records in key order, the last entry of a key winning;
* `insertField` — records in key order as lists of entries; `lookup_insertField` — what is found
  under a key after an insertion.
-/

set_option autoImplicit false

namespace ControlBlocks

/-- A value of any shape. -/
inductive Datum (α : Type) where
  | null
  | bool (b : Bool)
  | int (n : Int)
  | real (x : α)
  | text (s : String)
  | list (items : List (Datum α))
  | record (fields : List (String × Datum α))

instance (α : Type) : Inhabited (Datum α) := ⟨.null⟩

/-- A record sorted by key, with one more entry; an entry of the same key is replaced. -/
def insertField {β : Type} (key : String) (value : β) : List (String × β) → List (String × β)
  | [] => [(key, value)]
  | (k, v) :: rest =>
    if key = k then (key, value) :: rest
    else if key < k then (key, value) :: (k, v) :: rest
    else (k, v) :: insertField key value rest

theorem lookup_cons_eq_ite {κ β : Type} [BEq κ] [LawfulBEq κ] [DecidableEq κ] (k j : κ) (v : β)
    (rest : List (κ × β)) :
    ((j, v) :: rest).lookup k = if k = j then some v else rest.lookup k := by
  by_cases h : k = j
  · simp [h]
  · simp [List.lookup_cons, h, beq_false_of_ne h]

/-- An insertion changes what is found under its own key, and nothing else. -/
theorem lookup_insertField {β : Type} (key k : String) (value : β) (fields : List (String × β)) :
    (insertField key value fields).lookup k = if k = key then some value else fields.lookup k := by
  induction fields with
  | nil => simp only [insertField, lookup_cons_eq_ite]
  | cons e rest ih =>
    obtain ⟨j, v⟩ := e
    simp only [insertField]
    split
    · next h =>
      subst h
      simp only [lookup_cons_eq_ite]
      split <;> rfl
    · split
      · simp only [lookup_cons_eq_ite]
      · next h _ =>
        simp only [lookup_cons_eq_ite, ih]
        split
        · next hk => simp [hk, Ne.symm h]
        · rfl

namespace Datum

variable {α : Type}

mutual

/-- The tree with every real replaced by what `f` gives for it. -/
def bindReals {β : Type} (f : α → Datum β) : Datum α → Datum β
  | .real x => f x
  | .list items => .list (bindItems f items)
  | .record fields => .record (bindFields f fields)
  | .null => .null
  | .bool b => .bool b
  | .int n => .int n
  | .text s => .text s

/-- The reals of each item replaced. -/
def bindItems {β : Type} (f : α → Datum β) : List (Datum α) → List (Datum β)
  | [] => []
  | d :: rest => bindReals f d :: bindItems f rest

/-- The reals of each entry replaced. -/
def bindFields {β : Type} (f : α → Datum β) :
    List (String × Datum α) → List (String × Datum β)
  | [] => []
  | (k, d) :: rest => (k, bindReals f d) :: bindFields f rest

end

/-- The form in which a value is kept: a real that is not finite becomes `null`. -/
def stored [Scalar α] : Datum α → Datum α :=
  bindReals fun x => if Scalar.isFinite x then .real x else .null

mutual

/-- Records in key order, one entry for each key, the last one winning. -/
def sorted : Datum α → Datum α
  | .list items => .list (sortedItems items)
  | .record fields => .record (sortedFields [] fields)
  | .null => .null
  | .bool b => .bool b
  | .int n => .int n
  | .real x => .real x
  | .text s => .text s

/-- The items with their records in key order. -/
def sortedItems : List (Datum α) → List (Datum α)
  | [] => []
  | d :: rest => sorted d :: sortedItems rest

/-- The entries inserted one after another into a sorted record. -/
def sortedFields (done : List (String × Datum α)) :
    List (String × Datum α) → List (String × Datum α)
  | [] => done
  | (k, d) :: rest => sortedFields (insertField k (sorted d) done) rest

end

mutual

/-- True when every real in the tree is finite. -/
def allFinite [Scalar α] : Datum α → Bool
  | .real x => Scalar.isFinite x
  | .list items => itemsFinite items
  | .record fields => fieldsFinite fields
  | .null => true
  | .bool _ => true
  | .int _ => true
  | .text _ => true

/-- True when every real in the items is finite. -/
def itemsFinite [Scalar α] : List (Datum α) → Bool
  | [] => true
  | d :: rest => allFinite d && itemsFinite rest

/-- True when every real in the entries is finite. -/
def fieldsFinite [Scalar α] : List (String × Datum α) → Bool
  | [] => true
  | (_, d) :: rest => allFinite d && fieldsFinite rest

end

/-- The first entry of a record with a key; `none` for a missing key and for anything but a
record. -/
def get? (d : Datum α) (key : String) : Option (Datum α) :=
  match d with
  | .record fields => fields.lookup key
  | _ => none

end Datum

end ControlBlocks

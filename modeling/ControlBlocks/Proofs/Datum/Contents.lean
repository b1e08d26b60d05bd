import ControlBlocks.Datum.Basic

/-!
# What a tree of data contains

* `Datum.ints` — the integers in a tree; `Datum.nesting` — how deep it is;
* `Datum.induction` — lists and records from their parts;
* `Datum.Partwise` — the properties that lists and records take from their parts;
* `Datum.stored_eq_self_iff` — the trees that are stored as they are: those of finite values.
-/

set_option autoImplicit false

namespace ControlBlocks.Datum

variable {α : Type}

mutual

/-- The integers in the tree. -/
def ints : Datum α → List Int
  | .int n => [n]
  | .list items => itemsInts items
  | .record fields => fieldsInts fields
  | .null => []
  | .bool _ => []
  | .real _ => []
  | .text _ => []

/-- The integers in the items of a list. -/
def itemsInts : List (Datum α) → List Int
  | [] => []
  | d :: rest => ints d ++ itemsInts rest

/-- The integers in the entries of a record. -/
def fieldsInts : List (String × Datum α) → List Int
  | [] => []
  | (_, d) :: rest => ints d ++ fieldsInts rest

end

mutual

/-- How many lists and records are around the inmost value. -/
def nesting : Datum α → Nat
  | .list items => itemsNesting items + 1
  | .record fields => fieldsNesting fields + 1
  | .null => 0
  | .bool _ => 0
  | .int _ => 0
  | .real _ => 0
  | .text _ => 0

/-- The nesting of the deepest item. -/
def itemsNesting : List (Datum α) → Nat
  | [] => 0
  | d :: rest => max (nesting d) (itemsNesting rest)

/-- The nesting of the deepest entry. -/
def fieldsNesting : List (String × Datum α) → Nat
  | [] => 0
  | (_, d) :: rest => max (nesting d) (fieldsNesting rest)

end

/-- Induction over a tree: lists and records from their parts. -/
@[elab_as_elim]
theorem induction {motive : Datum α → Prop} (null : motive .null) (bool : ∀ b, motive (.bool b))
    (int : ∀ n, motive (.int n)) (real : ∀ x, motive (.real x)) (text : ∀ s, motive (.text s))
    (list : ∀ items, (∀ d ∈ items, motive d) → motive (.list items))
    (record : ∀ fields, (∀ e ∈ fields, motive e.2) → motive (.record fields)) (d : Datum α) :
    motive d := by
  refine @Datum.rec α motive (fun items => ∀ d ∈ items, motive d)
    (fun fields => ∀ e ∈ fields, motive e.2) (fun e => motive e.2)
    null bool int real text list record ?_ ?_ ?_ ?_ ?_ d
  · intro d hd
    cases hd
  · intro d rest hd hrest e he
    rcases List.mem_cons.1 he with rfl | he
    · exact hd
    · exact hrest e he
  · intro e he
    cases he
  · intro e rest he hrest e' he'
    rcases List.mem_cons.1 he' with rfl | he'
    · exact he
    · exact hrest e' he'
  · intro k d hd
    exact hd

/-! ## The parts one by one -/

@[simp] theorem mem_itemsInts {n : Int} {items : List (Datum α)} :
    n ∈ itemsInts items ↔ ∃ d ∈ items, n ∈ d.ints := by
  induction items with
  | nil => simp [itemsInts]
  | cons d rest ih => simp [itemsInts, ih]

@[simp] theorem mem_fieldsInts {n : Int} {fields : List (String × Datum α)} :
    n ∈ fieldsInts fields ↔ ∃ e ∈ fields, n ∈ e.2.ints := by
  induction fields with
  | nil => simp [fieldsInts]
  | cons e rest ih => simp [fieldsInts, ih]

theorem itemsNesting_le {n : Nat} {items : List (Datum α)} :
    itemsNesting items ≤ n ↔ ∀ d ∈ items, d.nesting ≤ n := by
  induction items with
  | nil => simp [itemsNesting]
  | cons d rest ih => rw [itemsNesting, Nat.max_le, ih, List.forall_mem_cons]

theorem fieldsNesting_le {n : Nat} {fields : List (String × Datum α)} :
    fieldsNesting fields ≤ n ↔ ∀ e ∈ fields, e.2.nesting ≤ n := by
  induction fields with
  | nil => simp [fieldsNesting]
  | cons e rest ih => rw [fieldsNesting, Nat.max_le, ih, List.forall_mem_cons]

/-! ## Properties of all parts -/

/-- Lists and records have the property when all their parts have it. -/
structure Partwise (P : Datum α → Prop) : Prop where
  list : ∀ items, P (.list items) ↔ ∀ d ∈ items, P d
  record : ∀ fields, P (.record fields) ↔ ∀ e ∈ fields, P e.2

/-- A property of all integers in a tree. -/
theorem partwise_ints (p : Int → Prop) : Partwise fun d : Datum α => ∀ n ∈ d.ints, p n where
  list items := by
    simp only [ints, mem_itemsInts]
    exact ⟨fun h d hd n hn => h n ⟨d, hd, hn⟩, fun h n ⟨d, hd, hn⟩ => h d hd n hn⟩
  record fields := by
    simp only [ints, mem_fieldsInts]
    exact ⟨fun h e he n hn => h n ⟨e, he, hn⟩, fun h n ⟨e, he, hn⟩ => h e he n hn⟩

theorem partwise_allFinite [Scalar α] : Partwise fun d : Datum α => d.allFinite = true where
  list items := by
    rw [allFinite]
    induction items with
    | nil => simp [itemsFinite]
    | cons d rest ih => simp [itemsFinite, ih]
  record fields := by
    rw [allFinite]
    induction fields with
    | nil => simp [fieldsFinite]
    | cons e rest ih => simp [fieldsFinite, ih]

/-! ## What is stored -/

section Stored

variable [Scalar α]

@[simp] theorem stored_null : (null : Datum α).stored = .null := rfl
@[simp] theorem stored_bool (b : Bool) : (bool b : Datum α).stored = .bool b := rfl
@[simp] theorem stored_int (n : Int) : (int n : Datum α).stored = .int n := rfl
@[simp] theorem stored_text (s : String) : (text s : Datum α).stored = .text s := rfl
theorem stored_real (x : α) :
    (real x).stored = if Scalar.isFinite x then .real x else .null := rfl

@[simp] theorem stored_list (items : List (Datum α)) :
    (list items).stored = .list (items.map stored) := by
  unfold stored
  rw [bindReals]
  congr 1
  induction items with
  | nil => rfl
  | cons d rest ih => rw [bindItems, List.map_cons, ih]

@[simp] theorem stored_record (fields : List (String × Datum α)) :
    (record fields).stored = .record (fields.map fun e => (e.1, e.2.stored)) := by
  unfold stored
  rw [bindReals]
  congr 1
  induction fields with
  | nil => rfl
  | cons e rest ih => rw [bindFields, List.map_cons, ih]

/-- A tree of finite values is stored as it is. -/
theorem stored_eq_self {d : Datum α} (h : d.allFinite = true) : d.stored = d := by
  induction d using Datum.induction with
  | null => rfl
  | bool b => rfl
  | int n => rfl
  | text s => rfl
  | real x =>
    have hx : Scalar.isFinite x = true := h
    rw [stored_real, if_pos hx]
  | list items ih =>
    rw [partwise_allFinite.list] at h
    rw [stored_list, List.map_congr_left fun d hd => ih d hd (h d hd), List.map_id']
  | record fields ih =>
    rw [partwise_allFinite.record] at h
    have same : ∀ e ∈ fields, (e.1, e.2.stored) = e := fun e he => by rw [ih e he (h e he)]
    rw [stored_record, List.map_congr_left same, List.map_id']

/-- What is stored has only finite values. -/
theorem allFinite_stored (d : Datum α) : d.stored.allFinite = true := by
  induction d using Datum.induction with
  | null => rfl
  | bool b => rfl
  | int n => rfl
  | text s => rfl
  | real x =>
    rw [stored_real]
    split
    · rename_i h
      exact h
    · rfl
  | list items ih =>
    rw [stored_list, partwise_allFinite.list]
    intro d hd
    obtain ⟨e, he, rfl⟩ := List.mem_map.1 hd
    exact ih e he
  | record fields ih =>
    rw [stored_record, partwise_allFinite.record]
    intro e he
    obtain ⟨e', he', rfl⟩ := List.mem_map.1 he
    exact ih e' he'

/-- A tree is stored as it is exactly when its values are finite. -/
theorem stored_eq_self_iff (d : Datum α) : d.stored = d ↔ d.allFinite = true := by
  constructor
  · intro h
    rw [← h]
    exact allFinite_stored d
  · exact stored_eq_self

/-- Storing keeps a property of all parts. -/
theorem Partwise.stored {P : Datum α → Prop} (hP : Partwise P) (hnull : P .null) {d : Datum α}
    (h : P d) : P d.stored := by
  induction d using Datum.induction with
  | null => exact h
  | bool b => exact h
  | int n => exact h
  | text s => exact h
  | real x =>
    rw [stored_real]
    split
    · exact h
    · exact hnull
  | list items ih =>
    rw [stored_list, hP.list]
    intro d hd
    obtain ⟨e, he, rfl⟩ := List.mem_map.1 hd
    exact ih e he ((hP.list items).1 h e he)
  | record fields ih =>
    rw [stored_record, hP.record]
    intro e he
    obtain ⟨e', he', rfl⟩ := List.mem_map.1 he
    exact ih e' he' ((hP.record fields).1 h e' he')

/-- Storing makes nothing deeper. -/
theorem nesting_stored_le (d : Datum α) : d.stored.nesting ≤ d.nesting := by
  induction d using Datum.induction with
  | null => exact Nat.le_refl _
  | bool b => exact Nat.le_refl _
  | int n => exact Nat.le_refl _
  | text s => exact Nat.le_refl _
  | real x =>
    rw [stored_real]
    split <;> exact Nat.le_refl _
  | list items ih =>
    rw [stored_list, nesting, nesting, Nat.add_le_add_iff_right, itemsNesting_le]
    intro d hd
    obtain ⟨e, he, rfl⟩ := List.mem_map.1 hd
    exact Nat.le_trans (ih e he) (itemsNesting_le.1 (Nat.le_refl _) e he)
  | record fields ih =>
    rw [stored_record, nesting, nesting, Nat.add_le_add_iff_right, fieldsNesting_le]
    intro e he
    obtain ⟨e', he', rfl⟩ := List.mem_map.1 he
    exact Nat.le_trans (ih e' he') (fieldsNesting_le.1 (Nat.le_refl _) e' he')

end Stored

end ControlBlocks.Datum

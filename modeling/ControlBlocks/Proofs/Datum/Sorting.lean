import ControlBlocks.Datum.Coded
import ControlBlocks.Proofs.Datum.Contents

/-!
# Records in key order

* `KeysAscend` — the keys of a record ascend; `keysAscend_insertField`;
* `Datum.lookup_sortedFields` — what is found in a sorted record: the last entry of a key;
* `Datum.sorted_sorted` — sorting twice is sorting once;
* `Datum.members_sorted` — the fields of a structure are found in its sorted record.
-/

set_option autoImplicit false

namespace ControlBlocks

/-! ## Insertion -/

section Insertion

variable {β : Type}

/-- The keys ascend, so that none stands twice. -/
def KeysAscend (fields : List (String × β)) : Prop := fields.Pairwise fun a b => a.1 < b.1

theorem mem_insertField {key : String} {value : β} {fields : List (String × β)} {e : String × β}
    (h : e ∈ insertField key value fields) : e = (key, value) ∨ e ∈ fields := by
  induction fields with
  | nil => exact .inl (List.mem_singleton.1 h)
  | cons f rest ih =>
    obtain ⟨k, v⟩ := f
    simp only [insertField] at h
    split at h
    · rcases List.mem_cons.1 h with h | h
      · exact .inl h
      · exact .inr (List.mem_cons_of_mem _ h)
    · split at h
      · rcases List.mem_cons.1 h with h | h
        · exact .inl h
        · exact .inr h
      · rcases List.mem_cons.1 h with h | h
        · exact .inr (h ▸ List.mem_cons_self ..)
        · rcases ih h with h | h
          · exact .inl h
          · exact .inr (List.mem_cons_of_mem _ h)

theorem keysAscend_insertField (key : String) (value : β) {fields : List (String × β)}
    (h : KeysAscend fields) : KeysAscend (insertField key value fields) := by
  induction fields with
  | nil => exact List.pairwise_singleton ..
  | cons f rest ih =>
    obtain ⟨k, v⟩ := f
    obtain ⟨hk, hrest⟩ := List.pairwise_cons.1 h
    simp only [insertField]
    split
    · rename_i heq
      subst heq
      exact List.pairwise_cons.2 ⟨hk, hrest⟩
    · rename_i hne
      split
      · rename_i hlt
        refine List.pairwise_cons.2 ⟨?_, h⟩
        intro e he
        rcases List.mem_cons.1 he with rfl | he
        · exact hlt
        · exact String.lt_trans hlt (hk e he)
      · rename_i hnot
        refine List.pairwise_cons.2 ⟨?_, ih hrest⟩
        intro e he
        rcases mem_insertField he with rfl | he
        · exact Std.lt_of_le_of_ne (String.not_lt.1 hnot) (Ne.symm hne)
        · exact hk e he

/-- A key above all others goes to the end. -/
theorem insertField_eq_append {key : String} (value : β) {fields : List (String × β)}
    (h : ∀ e ∈ fields, e.1 < key) : insertField key value fields = fields ++ [(key, value)] := by
  induction fields with
  | nil => rfl
  | cons f rest ih =>
    obtain ⟨k, v⟩ := f
    have hk : k < key := h (k, v) (List.mem_cons_self ..)
    have hne : key ≠ k := by
      rintro rfl
      exact String.lt_irrefl _ hk
    have hnot : ¬ key < k := fun hlt => String.lt_irrefl _ (String.lt_trans hk hlt)
    simp only [insertField, if_neg hne, if_neg hnot, List.cons_append,
      ih fun e he => h e (List.mem_cons_of_mem _ he)]

/-- Each key of an ascending record stands once. -/
theorem countP_key_le_one {fields : List (String × β)} (h : KeysAscend fields) (key : String) :
    fields.countP (·.1 = key) ≤ 1 := by
  induction fields with
  | nil => exact Nat.zero_le _
  | cons f rest ih =>
    obtain ⟨hf, hrest⟩ := List.pairwise_cons.1 h
    rw [List.countP_cons]
    split
    · rename_i hkey
      have none : rest.countP (·.1 = key) = 0 := by
        rw [List.countP_eq_zero]
        intro e he hek
        have hlt := hf e he
        rw [of_decide_eq_true hkey, of_decide_eq_true hek] at hlt
        exact String.lt_irrefl _ hlt
      omega
    · exact ih hrest

end Insertion

namespace Datum

variable {α : Type}

/-! ## Sorting -/

attribute [local simp] sorted sortedItems sortedFields

theorem sortedItems_eq_map (items : List (Datum α)) : sortedItems items = items.map sorted := by
  induction items with
  | nil => rfl
  | cons d rest ih => rw [sortedItems, List.map_cons, ih]

@[simp] theorem sorted_null : (null : Datum α).sorted = .null := by simp
@[simp] theorem sorted_bool (b : Bool) : (bool b : Datum α).sorted = .bool b := by simp
@[simp] theorem sorted_int (n : Int) : (int n : Datum α).sorted = .int n := by simp
@[simp] theorem sorted_real (x : α) : (real x).sorted = .real x := by simp
@[simp] theorem sorted_text (s : String) : (text s : Datum α).sorted = .text s := by simp

@[simp] theorem sorted_list (items : List (Datum α)) :
    (list items).sorted = .list (items.map sorted) := by
  rw [sorted, sortedItems_eq_map]

@[simp] theorem sorted_record (fields : List (String × Datum α)) :
    (record fields).sorted = .record (sortedFields [] fields) := by
  rw [sorted]

theorem keysAscend_sortedFields (fields : List (String × Datum α)) {done : List (String × Datum α)}
    (h : KeysAscend done) : KeysAscend (sortedFields done fields) := by
  induction fields generalizing done with
  | nil => exact h
  | cons f rest ih =>
    rw [sortedFields]
    exact ih (keysAscend_insertField _ _ h)

theorem mem_sortedFields {fields done : List (String × Datum α)} {e : String × Datum α}
    (h : e ∈ sortedFields done fields) :
    e ∈ done ∨ ∃ f ∈ fields, e = (f.1, f.2.sorted) := by
  induction fields generalizing done with
  | nil => exact .inl h
  | cons f rest ih =>
    rw [sortedFields] at h
    rcases ih h with h | ⟨g, hg, heq⟩
    · rcases mem_insertField h with heq | h
      · exact .inr ⟨f, List.mem_cons_self .., heq⟩
      · exact .inl h
    · exact .inr ⟨g, List.mem_cons_of_mem _ hg, heq⟩

/-- An ascending record of sorted values is sorted as it is. -/
theorem sortedFields_eq_append {fields done : List (String × Datum α)}
    (h : KeysAscend (done ++ fields)) (hfixed : ∀ f ∈ fields, f.2.sorted = f.2) :
    sortedFields done fields = done ++ fields := by
  induction fields generalizing done with
  | nil => rw [sortedFields, List.append_nil]
  | cons f rest ih =>
    obtain ⟨k, d⟩ := f
    have below : ∀ e ∈ done, e.1 < k := fun e he =>
      (List.pairwise_append.1 h).2.2 e he (k, d) (List.mem_cons_self ..)
    have hd : d.sorted = d := hfixed (k, d) (List.mem_cons_self ..)
    rw [sortedFields, hd, insertField_eq_append d below]
    rw [ih (by simpa using h) fun f hf => hfixed f (List.mem_cons_of_mem _ hf)]
    simp

theorem sortedFields_eq_self {fields : List (String × Datum α)} (h : KeysAscend fields)
    (hfixed : ∀ f ∈ fields, f.2.sorted = f.2) : sortedFields [] fields = fields := by
  have h' : KeysAscend ([] ++ fields) := h
  rw [sortedFields_eq_append h' hfixed, List.nil_append]

/-- **Sorting twice is sorting once.** -/
theorem sorted_sorted (d : Datum α) : d.sorted.sorted = d.sorted := by
  induction d using Datum.induction with
  | null => rw [sorted_null, sorted_null]
  | bool b => rw [sorted_bool, sorted_bool]
  | int n => rw [sorted_int, sorted_int]
  | real x => rw [sorted_real, sorted_real]
  | text s => rw [sorted_text, sorted_text]
  | list items ih =>
    rw [sorted_list, sorted_list, List.map_map]
    congr 1
    exact List.map_congr_left ih
  | record fields ih =>
    rw [sorted_record, sorted_record]
    congr 1
    refine sortedFields_eq_self (keysAscend_sortedFields fields .nil) ?_
    intro e he
    rcases mem_sortedFields he with he | ⟨f, hf, rfl⟩
    · cases he
    · exact ih f hf

/-- Sorting keeps a property of all parts. -/
theorem Partwise.sorted {P : Datum α → Prop} (hP : Partwise P) {d : Datum α} (h : P d) :
    P d.sorted := by
  induction d using Datum.induction with
  | null => rwa [sorted_null]
  | bool b => rwa [sorted_bool]
  | int n => rwa [sorted_int]
  | real x => rwa [sorted_real]
  | text s => rwa [sorted_text]
  | list items ih =>
    rw [sorted_list, hP.list]
    intro d hd
    obtain ⟨e, he, rfl⟩ := List.mem_map.1 hd
    exact ih e he ((hP.list items).1 h e he)
  | record fields ih =>
    rw [sorted_record, hP.record]
    intro e he
    rcases mem_sortedFields he with he | ⟨f, hf, rfl⟩
    · cases he
    · exact ih f hf ((hP.record fields).1 h f hf)

/-- Sorting makes nothing deeper. -/
theorem nesting_sorted_le (d : Datum α) : d.sorted.nesting ≤ d.nesting := by
  induction d using Datum.induction with
  | null => exact Nat.le_of_eq (congrArg nesting sorted_null)
  | bool b => exact Nat.le_of_eq (congrArg nesting (sorted_bool b))
  | int n => exact Nat.le_of_eq (congrArg nesting (sorted_int n))
  | real x => exact Nat.le_of_eq (congrArg nesting (sorted_real x))
  | text s => exact Nat.le_of_eq (congrArg nesting (sorted_text s))
  | list items ih =>
    rw [sorted_list, nesting, nesting, Nat.add_le_add_iff_right, itemsNesting_le]
    intro d hd
    obtain ⟨e, he, rfl⟩ := List.mem_map.1 hd
    exact Nat.le_trans (ih e he) (itemsNesting_le.1 (Nat.le_refl _) e he)
  | record fields ih =>
    rw [sorted_record, nesting, nesting, Nat.add_le_add_iff_right, fieldsNesting_le]
    intro e he
    rcases mem_sortedFields he with he | ⟨f, hf, rfl⟩
    · cases he
    · exact Nat.le_trans (ih f hf) (fieldsNesting_le.1 (Nat.le_refl _) f hf)

/-! ## Look-up -/

/-- A key that is not among the entries is found where it was before. -/
theorem lookup_sortedFields_of_not_mem {fields done : List (String × Datum α)} {key : String}
    (h : ∀ f ∈ fields, f.1 ≠ key) : (sortedFields done fields).lookup key = done.lookup key := by
  induction fields generalizing done with
  | nil => rfl
  | cons f rest ih =>
    rw [sortedFields, ih fun g hg => h g (List.mem_cons_of_mem _ hg), lookup_insertField]
    rw [if_neg (Ne.symm (h f (List.mem_cons_self ..)))]

/-- Of distinct keys each gives its own entry. -/
theorem lookup_sortedFields {fields done : List (String × Datum α)}
    (hkeys : (fields.map Prod.fst).Nodup) {key : String} {d : Datum α} (h : (key, d) ∈ fields) :
    (sortedFields done fields).lookup key = some d.sorted := by
  induction fields generalizing done with
  | nil => cases h
  | cons f rest ih =>
    rw [List.map_cons, List.nodup_cons] at hkeys
    rw [sortedFields]
    rcases List.mem_cons.1 h with rfl | h
    · have others : ∀ g ∈ rest, g.1 ≠ key := fun g hg heq =>
        hkeys.1 (List.mem_map.2 ⟨g, hg, heq⟩)
      rw [lookup_sortedFields_of_not_mem others, lookup_insertField, if_pos rfl]
    · exact ih hkeys.2 h

/-- **The fields of a structure are found in its sorted record**, in the order of their names. -/
theorem members_sorted {fields : List (String × Datum α)} (hkeys : (fields.map Prod.fst).Nodup) :
    (record fields).sorted.members (fields.map Prod.fst) =
      some (fields.map fun f => some f.2.sorted) := by
  have once : (fields.map Prod.fst).any
      (fun n => 1 < (sortedFields [] fields).countP (·.1 = n)) = false := by
    rw [List.any_eq_false]
    intro n _ h
    have := countP_key_le_one (keysAscend_sortedFields fields .nil) n
    simp only [decide_eq_true_eq] at h
    omega
  rw [sorted_record, members, once]
  simp only [Bool.false_eq_true, if_false, List.map_map]
  congr 1
  refine List.map_congr_left ?_
  rintro ⟨k, d⟩ hf
  exact lookup_sortedFields hkeys hf

end Datum

end ControlBlocks

import ControlBlocks.Block.Component
import ControlBlocks.Proofs.Datum.Sorting

/-!
# Memories as they are kept

What is read of a memory that was kept as data.  A real that is not finite is kept as `null`; a
field that may be empty takes that for an empty one, any other field refuses it.

* `Datum.legible` — every number of the tree is taken by its field;
* `Returns` — a reading gives what was stored, or nothing where that is not legible;
* `Kept` — the types whose memories are read back in this way.
-/

set_option autoImplicit false

namespace ControlBlocks

namespace Datum

/-- The fields of memories that hold a real or nothing. -/
def emptiable : List String :=
  ["entry_time", "fire_time", "last_time", "held", "current", "previous", "max",
    "next_change_time", "became_true_time", "became_false_time", "last_trigger_time"]

/-- The field takes the value although it would not stand elsewhere: a real that becomes `null`
where a field may be empty, and a count of 64 bits without a sign. -/
def exempt (key : String) : Datum Float → Bool
  | .real _ => emptiable.contains key
  | .int n => key = "count" ∧ 0 ≤ n ∧ n < 0x10000000000000000
  | _ => false

mutual

/-- Every number is one that its field takes back. -/
def legible : Datum Float → Bool
  | .real x => Scalar.isFinite x
  | .int n => InInt64 n
  | .list items => itemsLegible items
  | .record fields => fieldsLegible fields
  | .null => true
  | .bool _ => true
  | .text _ => true

/-- Every item is legible. -/
def itemsLegible : List (Datum Float) → Bool
  | [] => true
  | d :: rest => legible d && itemsLegible rest

/-- Every entry is legible or exempt. -/
def fieldsLegible : List (String × Datum Float) → Bool
  | [] => true
  | (k, d) :: rest => (exempt k d || legible d) && fieldsLegible rest

end

end Datum

/-! ## Readings -/

section Returns

variable {τ υ : Type} [ToDatum Float τ] [ToDatum Float υ]

/-- The value as data over binary reals. -/
abbrev written (s : τ) : Datum Float := toDatum s

/-- The value read back from the form in which it is kept. -/
def reread [OfDatum Float τ] (s : τ) : Option τ := ofDatum? (written s).stored.sorted

/-- The reading gives a value that is written as `d` where `legible` holds, and nothing else. -/
inductive Returns (legible : Bool) (d : Datum Float) : Option τ → Prop where
  | value {s : τ} (hlegible : legible = true) (hs : written s = d) : Returns legible d (some s)
  | nothing (hlegible : legible = false) : Returns legible d none

/-- A reading that goes on with another. -/
theorem Returns.bind {legible legible' : Bool} {d d' : Datum Float} {reading : Option τ}
    {next : τ → Option υ} (h : Returns legible d reading)
    (hnext : ∀ s, written s = d → Returns legible' d' (next s)) :
    Returns (legible && legible') d' (reading >>= next) := by
  cases h with
  | value htrue hs =>
    rw [htrue]
    exact hnext _ hs
  | nothing hfalse =>
    rw [hfalse]
    exact .nothing rfl

/-- There is a value exactly where the data are legible. -/
theorem Returns.isSome {legible : Bool} {d : Datum Float} {reading : Option τ}
    (h : Returns legible d reading) : reading.isSome = legible := by
  cases h with
  | value htrue hs => exact htrue.symm
  | nothing hfalse => exact hfalse.symm

end Returns

/-! ## The law -/

/-- Values that are written differently where they differ. -/
class Written (τ : Type) [ToDatum Float τ] : Prop where
  injective : ∀ s s' : τ, written s = written s' → s = s'

@[simp] theorem toDatum_inj {τ : Type} [ToDatum Float τ] [Written τ] {s s' : τ} :
    (toDatum s : Datum Float) = toDatum s' ↔ s = s' :=
  ⟨Written.injective s s', fun h => by rw [h]⟩

/-- Values that are read back as they were stored, or refused. -/
class Reread (τ : Type) [ToDatum Float τ] [OfDatum Float τ] : Prop extends Written τ where
  returns : ∀ s : τ, Returns (written s).legible (written s).stored (reread s)

/-- Memories: values that are read back as they were stored, or refused, and never deep. -/
class Kept (τ : Type) [ToDatum Float τ] [OfDatum Float τ] : Prop extends Reread τ where
  /-- By default the fields of a record are looked through. -/
  nesting : ∀ s : τ, (written s).nesting ≤ 3 := by
    intro s
    show (Datum.record _).nesting ≤ 3
    simp [Datum.nesting, Datum.fieldsNesting]

/-! ## Values -/

section Values

instance : Kept Unit where
  injective := by
    intro s s' _
    rfl
  nesting := by
    intro s
    exact Nat.zero_le _
  returns := by
    intro s
    exact .value rfl rfl

instance : Reread Bool where
  injective := by
    intro b b' h
    exact Datum.bool.inj h
  returns := by
    intro b
    exact .value rfl rfl

instance : Reread Int where
  injective := by
    intro n n' h
    exact Datum.int.inj h
  returns := by
    intro n
    show Returns (decide (InInt64 n)) (.int n) (if InInt64 n then some n else none)
    split
    · rename_i hn
      exact .value (decide_eq_true hn) rfl
    · rename_i hn
      exact .nothing (decide_eq_false hn)

instance : Reread Float where
  injective := by
    intro x x' h
    exact Datum.real.inj h
  returns := by
    intro x
    show Returns (Scalar.isFinite x) (Datum.real x).stored (ofDatum? (Datum.real x).stored.sorted)
    rw [Datum.stored_real]
    split
    · rename_i hx
      rw [Datum.sorted_real]
      exact .value hx rfl
    · rename_i hx
      rw [Datum.sorted_null]
      exact .nothing (Bool.eq_false_iff.2 hx)

instance : Written Nat where
  injective := by
    intro n n' h
    exact Int.ofNat.inj (Datum.int.inj h)

instance : Written (Option Float) where
  injective := by
    intro x x' h
    cases x with
    | none =>
      cases x' with
      | none => rfl
      | some x' => cases h
    | some x =>
      cases x' with
      | none => cases h
      | some x' => rw [Datum.real.inj h]

end Values

/-! ## Values with parts -/

section Parts

variable {τ υ : Type} [ToDatum Float τ] [OfDatum Float τ] [ToDatum Float υ] [OfDatum Float υ]

omit [ToDatum Float τ] in
theorem ofDatum?_of_ne_null {d : Datum Float} (h : d ≠ .null) :
    (ofDatum? d : Option (Option τ)) = (ofDatum? d : Option τ).map some := by
  cases d with
  | null => exact absurd rfl h
  | bool => rfl
  | int => rfl
  | real => rfl
  | text => rfl
  | list => rfl
  | record => rfl

/-- A value that is never written `null` may also be absent. -/
theorem reread_option [Reread τ] (h : ∀ s : τ, (written s).stored.sorted ≠ .null)
    (hw : ∀ s : τ, written s ≠ .null) : Reread (Option τ) where
  injective := by
    intro s s' heq
    cases s with
    | none =>
      cases s' with
      | none => rfl
      | some s' => exact absurd heq.symm (hw s')
    | some s =>
      cases s' with
      | none => exact absurd heq (hw s)
      | some s' => rw [Written.injective s s' heq]
  returns := by
    intro s
    cases s with
    | none => exact .value rfl rfl
    | some s =>
      have whole : reread (some s) = (reread s).map some := ofDatum?_of_ne_null (h s)
      have inner := Reread.returns s
      rw [whole]
      generalize reread s = reading at inner
      cases inner with
      | value htrue hs => exact .value htrue hs
      | nothing hfalse => exact .nothing hfalse

instance : Reread (Option Bool) :=
  reread_option (fun _ h => nomatch h) (fun _ h => nomatch h)

instance [Reread τ] [Reread υ] : Reread (τ × υ) where
  injective := by
    rintro ⟨a, b⟩ ⟨a', b'⟩ h
    simpa using Datum.list.inj h
  returns := by
    rintro ⟨a, b⟩
    have kept : (written (a, b)).stored.sorted =
        .list [(written a).stored.sorted, (written b).stored.sorted] := by
      show (Datum.list [written a, written b]).stored.sorted = _
      rw [Datum.stored_list, Datum.sorted_list]
      rfl
    unfold reread
    rw [kept]
    show Returns ((written a).legible && ((written b).legible && true)) _
      (reread a >>= fun a => reread b >>= fun b => some (a, b))
    refine .bind (Reread.returns a) fun a' ha => ?_
    refine .bind (Reread.returns b) fun b' hb => ?_
    refine .value rfl ?_
    show Datum.list [written a', written b'] = (Datum.list [written a, written b]).stored
    rw [Datum.stored_list, ha, hb]
    rfl

instance : Reread (Option (Float × Float)) :=
  reread_option
    (fun p h => by
      have list : written p = .list [written p.1, written p.2] := rfl
      rw [list, Datum.stored_list, Datum.sorted_list] at h
      cases h)
    (fun _ h => nomatch h)

/-- The items of a list are read one after another. -/
theorem returns_items [Reread τ] (xs : List τ) :
    Returns (Datum.itemsLegible (xs.map written)) (.list (xs.map fun x => (written x).stored))
      ((xs.map fun x => (written x).stored.sorted).mapM ofDatum? : Option (List τ)) := by
  induction xs with
  | nil => exact .value rfl rfl
  | cons x xs ih =>
    rw [List.map_cons, List.map_cons, List.map_cons, List.mapM_cons, Datum.itemsLegible]
    refine .bind (Reread.returns x) fun x' hx => ?_
    rw [← Bool.and_true (Datum.itemsLegible _)]
    refine .bind ih fun xs' hxs => ?_
    refine .value rfl ?_
    show Datum.list (written x' :: xs'.map written) = _
    rw [hx, Datum.list.inj hxs]

instance [Reread τ] : Reread (List τ) where
  injective := by
    intro xs xs' h
    exact (List.map_inj_right Written.injective).1 (Datum.list.inj h)
  returns := by
    intro xs
    have list : written xs = .list (xs.map written) := rfl
    unfold reread
    rw [list, Datum.stored_list, Datum.sorted_list, List.map_map, List.map_map]
    exact returns_items xs

end Parts

/-! ## Structures -/

section Structures

open Datum (exempt emptiable fieldsLegible)

variable {τ υ : Type} [ToDatum Float τ] [OfDatum Float τ] [ToDatum Float υ]

/-- The fields of a structure are found in the record that is kept of it. -/
theorem members_kept {fields : List (String × Datum Float)}
    (hkeys : (fields.map Prod.fst).Nodup) :
    (Datum.record fields).stored.sorted.members (fields.map Prod.fst) =
      some (fields.map fun f => some f.2.stored.sorted) := by
  have keys : (fields.map fun f => (f.1, f.2.stored)).map Prod.fst = fields.map Prod.fst := by
    rw [List.map_map]
    rfl
  have found := Datum.members_sorted (keys.symm ▸ hkeys)
  rw [keys, List.map_map] at found
  rw [Datum.stored_record, found]
  rfl

/-- A structure that is read field by field. -/
theorem Returns.record {s : τ} (fields : List (String × Datum Float))
    {build : List (Option (Datum Float)) → Option τ} (hs : written s = .record fields)
    (hread : ∀ d : Datum Float, ofDatum? d = d.members (fields.map Prod.fst) >>= build)
    (hkeys : (fields.map Prod.fst).Nodup)
    (h : Returns (fieldsLegible fields) (.record (fields.map fun e => (e.1, e.2.stored)))
      (build (fields.map fun f => some f.2.stored.sorted))) :
    Returns (written s).legible (written s).stored (reread s) := by
  unfold reread
  rw [hs, hread, members_kept hkeys, Datum.stored_record, Datum.legible]
  exact h

omit [OfDatum Float τ] in
/-- One field, and then the others. -/
theorem Returns.field {key : String} {d d' : Datum Float} {rest : List (String × Datum Float)}
    {reading : Option τ} {next : τ → Option υ}
    (h : Returns (exempt key d || d.legible) d.stored reading)
    (hnext : ∀ s, written s = d.stored → Returns (fieldsLegible rest) d' (next s)) :
    Returns (fieldsLegible ((key, d) :: rest)) d' (reading >>= next) := by
  rw [fieldsLegible]
  exact .bind h hnext

omit [OfDatum Float τ] in
/-- The structure after its last field. -/
theorem Returns.built {s : τ} {fields stored : List (String × Datum Float)}
    (hs : written s = .record fields) (h : fields = stored) :
    Returns (fieldsLegible []) (.record stored) (some s) := by
  rw [← h]
  exact .value rfl hs

/-- A field that has to be there. -/
theorem returns_required [Reread τ] {key : String} (x : τ)
    (h : exempt key (written x) = false) :
    Returns (exempt key (written x) || (written x).legible) (written x).stored
      (required (some (written x).stored.sorted) : Option τ) := by
  rw [h]
  exact Reread.returns x

/-- A field that may be missing. -/
theorem returns_optional [Reread (Option τ)] {key : String} (x : Option τ)
    (h : exempt key (written x) = false) :
    Returns (exempt key (written x) || (written x).legible) (written x).stored
      (optional (some (written x).stored.sorted) : Option (Option τ)) := by
  rw [h]
  exact Reread.returns x

theorem exempt_optionBool (key : String) (b : Option Bool) : exempt key (written b) = false := by
  cases b <;> rfl

theorem exempt_optionPair (key : String) (p : Option (Float × Float)) :
    exempt key (written p) = false := by
  cases p <;> rfl

/-- A field that may hold no real. -/
theorem returns_emptiable {key : String} (hkey : emptiable.contains key = true)
    (x : Option Float) :
    Returns (exempt key (written x) || (written x).legible) (written x).stored
      (optional (some (written x).stored.sorted) : Option (Option Float)) := by
  cases x with
  | none => exact .value rfl rfl
  | some x =>
    have taken : exempt key (written (some x)) = true := hkey
    rw [taken]
    show Returns true (Datum.real x).stored (optional (some (Datum.real x).stored.sorted))
    rw [Datum.stored_real]
    split
    · rw [Datum.sorted_real]
      exact .value rfl rfl
    · rw [Datum.sorted_null]
      exact .value rfl rfl

/-- The field of a count. -/
theorem returns_count (n : Nat) :
    Returns (exempt "count" (written n) || (written n).legible) (written n).stored
      (required (some (written n).stored.sorted) : Option Nat) := by
  have data : written n = .int n := rfl
  have kept : (written n).stored.sorted = .int n := Datum.sorted_int _
  rw [kept, data, Datum.stored_int, Datum.legible, required, Option.bind_some]
  simp only [exempt, ofDatum?, true_and]
  cases Nat.lt_or_ge n 0x10000000000000000 with
  | inl hn =>
    have fits : 0 ≤ (n : Int) ∧ (n : Int) < 0x10000000000000000 := by omega
    rw [if_pos fits, decide_eq_true fits, Int.toNat_natCast]
    exact .value rfl rfl
  | inr hn =>
    have wide : ¬ (0 ≤ (n : Int) ∧ (n : Int) < 0x10000000000000000) := fun h => by omega
    have wide' : ¬ InInt64 n := fun h => by
      have := h.2
      omega
    rw [if_neg wide, decide_eq_false wide, decide_eq_false wide']
    exact .nothing rfl

end Structures

/-! ## How deep values are -/

section Nesting

@[simp] theorem nesting_bool (b : Bool) : (toDatum b : Datum Float).nesting = 0 := rfl
@[simp] theorem nesting_int (n : Int) : (toDatum n : Datum Float).nesting = 0 := rfl
@[simp] theorem nesting_nat (n : Nat) : (toDatum n : Datum Float).nesting = 0 := rfl
@[simp] theorem nesting_float (x : Float) : (toDatum x : Datum Float).nesting = 0 := rfl

@[simp] theorem nesting_optionFloat (x : Option Float) :
    (toDatum x : Datum Float).nesting = 0 := by
  cases x <;> rfl

@[simp] theorem nesting_optionBool (b : Option Bool) :
    (toDatum b : Datum Float).nesting = 0 := by
  cases b <;> rfl

theorem nesting_optionPair (p : Option (Float × Float)) :
    (toDatum p : Datum Float).nesting ≤ 2 := by
  cases p with
  | none => exact Nat.zero_le _
  | some p => exact Nat.le_succ 1

theorem nesting_pairs (ps : List (Float × Float)) :
    (toDatum ps : Datum Float).nesting ≤ 2 := by
  show Datum.itemsNesting (ps.map toDatum) + 1 ≤ 2
  rw [Nat.add_le_add_iff_right, Datum.itemsNesting_le]
  intro d hd
  obtain ⟨p, -, rfl⟩ := List.mem_map.1 hd
  exact Nat.le_refl 1

end Nesting

end ControlBlocks

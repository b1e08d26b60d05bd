import ControlBlocks.Network.Basic
import ControlBlocks.Proofs.Checkpoint.Files
import ControlBlocks.Proofs.Memory.Reload
import Mathlib.Data.List.TakeWhile

/-!
# Assemblies

A model that owns named blocks of the library and nothing else: its memory is that of the blocks,
and a step may do anything with it.

* `Part`, `Memories` — the named blocks, and a memory of each;
* `Memories.snapshot`, `restore` — every block once, in order, up to the first failure;
* `Assembly` — blocks with a step; `Assembly.model` — the model;
* `taken` — how many blocks a snapshot restores; `get_restore_of_lt`, `get_restore_of_ge` — what a
  restore does with each block;
* `Memories.recall_snapshot_eq_self_iff` — when the snapshot gives a block back its own memory;
* `Memories.restore_snapshot` — when all blocks get back theirs.
-/

set_option autoImplicit false

namespace ControlBlocks

/-- A block of the library under a name. -/
structure Part where
  name : String
  design : Design Float
  component : Component Float
  /-- The parameters of the block were accepted. -/
  built : design.component = .ok component

/-- A delay by one evaluation, under a name. -/
def Part.unitDelay (name : String) (start : Float) : Part :=
  ⟨name, .unitDelay start, ⟨Edges.unitDelay start⟩, rfl⟩

/-- A latch, under a name. -/
def Part.latch (name : String) : Part := ⟨name, .latch, ⟨Bistable.latch⟩, rfl⟩

/-- The memory of a part that a snapshot holds. -/
def Part.recall (s : Snapshot Float) (p : Part) : Except (Failure Float) p.component.State :=
  s.recall p.name p.component

/-- A memory for each of the parts. -/
inductive Memories : List Part → Type 1 where
  | nil : Memories []
  | cons {p : Part} {ps : List Part} (m : p.component.State) (rest : Memories ps) :
      Memories (p :: ps)

namespace Memories

/-- The memory of the part at a place. -/
def get : {ps : List Part} → Memories ps → (i : Fin ps.length) → (ps.get i).component.State
  | _ :: _, .cons m _, ⟨0, _⟩ => m
  | _ :: _, .cons _ rest, ⟨i + 1, h⟩ => rest.get ⟨i, Nat.lt_of_succ_lt_succ h⟩

/-- The memories inserted one after another under the names of their parts. -/
def insertInto : {ps : List Part} → Memories ps → Snapshot Float → Snapshot Float
  | _, .nil, s => s
  | p :: _, .cons m rest, s => rest.insertInto (s.insert p.name (p.component.keep m))

/-- The memories of all parts. -/
def snapshot {ps : List Part} (ms : Memories ps) : Snapshot Float := ms.insertInto .empty

/-- The memories restored in order up to the first failure; those after it stay as they are. -/
def restore (s : Snapshot Float) :
    {ps : List Part} → Memories ps → Except (Failure Float) Unit × Memories ps
  | _, .nil => (.ok (), .nil)
  | p :: _, .cons m rest =>
    match p.recall s with
    | .error e => (.error e, .cons m rest)
    | .ok m =>
      let (r, rest) := restore s rest
      (r, .cons m rest)

end Memories

/-- Named blocks of the library, and a step on their memories, which sees the clock. -/
structure Assembly (ο : Type) where
  parts : List Part
  react : Clock Float → Memories parts → Except (Fault Float) ο × Memories parts

/-- An assembly as a model. -/
def Assembly.model {ο : Type} (a : Assembly ο) : Model Float (Memories a.parts) ο where
  step wall c ms :=
    let c := c.look wall
    let (y, ms) := a.react c ms
    (y, ms, c)
  snapshot := Memories.snapshot
  restore := fun s ms => ms.restore s

/-- How many parts a snapshot restores before the first that it cannot. -/
def taken (s : Snapshot Float) (ps : List Part) : Nat :=
  (ps.takeWhile fun p => (p.recall s).isOk).length

section Restore

variable {ps : List Part} {s : Snapshot Float}

theorem taken_cons_of_ok {p : Part} {m : p.component.State} (h : p.recall s = .ok m) :
    taken s (p :: ps) = taken s ps + 1 := by
  have ok : (p.recall s).isOk = true := by rw [h]; rfl
  simp [taken, ok]

theorem taken_cons_of_error {p : Part} {e : Failure Float} (h : p.recall s = .error e) :
    taken s (p :: ps) = 0 := by
  have notOk : (p.recall s).isOk = false := by rw [h]; rfl
  simp [taken, notOk]

namespace Memories

/-- Memories are the same when each of them is. -/
theorem ext {ms ms' : Memories ps} (h : ∀ i, ms.get i = ms'.get i) : ms = ms' := by
  induction ms with
  | nil =>
    cases ms'
    rfl
  | cons m rest ih =>
    cases ms' with
    | cons m' rest' =>
      have first : m = m' := h ⟨0, Nat.zero_lt_succ _⟩
      have others : rest = rest' := ih fun i => h ⟨i + 1, Nat.succ_lt_succ i.2⟩
      rw [first, others]

/-- A part that is restored has the memory of the snapshot. -/
theorem get_restore_of_lt (ms : Memories ps) {i : Fin ps.length} (hi : i < taken s ps) :
    (ps.get i).recall s = .ok ((ms.restore s).2.get i) := by
  induction ms with
  | nil => exact i.elim0
  | cons m rest ih =>
    rename_i p ps
    cases hp : p.recall s with
    | error e =>
      rw [taken_cons_of_error hp] at hi
      exact absurd hi (Nat.not_lt_zero _)
    | ok m' =>
      rw [taken_cons_of_ok hp] at hi
      simp only [restore, hp]
      match i with
      | ⟨0, _⟩ => exact hp
      | ⟨i + 1, hlt⟩ => exact ih (i := ⟨i, Nat.lt_of_succ_lt_succ hlt⟩) (Nat.lt_of_succ_lt_succ hi)

/-- Any other part keeps the memory that it had. -/
theorem get_restore_of_ge (ms : Memories ps) {i : Fin ps.length} (hi : taken s ps ≤ i) :
    (ms.restore s).2.get i = ms.get i := by
  induction ms with
  | nil => exact i.elim0
  | cons m rest ih =>
    rename_i p ps
    cases hp : p.recall s with
    | error e => simp only [restore, hp]
    | ok m' =>
      rw [taken_cons_of_ok hp] at hi
      simp only [restore, hp]
      match i with
      | ⟨0, _⟩ => exact absurd hi (Nat.not_succ_le_zero _)
      | ⟨i + 1, hlt⟩ => exact ih (i := ⟨i, Nat.lt_of_succ_lt_succ hlt⟩) (Nat.le_of_succ_le_succ hi)

/-- A restore succeeds when every part is restored. -/
theorem restore_ok_iff (ms : Memories ps) :
    (ms.restore s).1 = .ok () ↔ taken s ps = ps.length := by
  induction ms with
  | nil => exact ⟨fun _ => rfl, fun _ => rfl⟩
  | cons m rest ih =>
    rename_i p ps
    cases hp : p.recall s with
    | error e =>
      rw [taken_cons_of_error hp]
      simp [restore, hp]
    | ok m' =>
      rw [taken_cons_of_ok hp]
      simp [restore, hp, ih]

end Memories

end Restore

/-! ## The snapshot -/

section Snapshot

variable {ps : List Part}

theorem Snapshot.find?_insert (s : Snapshot Float) (name key : String) (d : Datum Float) :
    (s.insert name d).find? key = if key = name then some d else s.find? key :=
  lookup_insertField name key d s.blocks

namespace Memories

/-- The memory of the part at a place as data, before anything is lost. -/
def data (ms : Memories ps) (i : Fin ps.length) : Datum Float :=
  (ps.get i).component.write (ms.get i)

/-- The memory of the part at a place in the form in which it is kept. -/
def kept (ms : Memories ps) (i : Fin ps.length) : Datum Float :=
  (ps.get i).component.keep (ms.get i)

theorem find?_insertInto_of_not_mem (ms : Memories ps) {s : Snapshot Float} {key : String}
    (h : key ∉ ps.map Part.name) : (ms.insertInto s).find? key = s.find? key := by
  induction ms generalizing s with
  | nil => rfl
  | cons m rest ih =>
    rename_i p ps
    rw [List.map_cons, List.mem_cons, not_or] at h
    rw [insertInto, ih h.2, Snapshot.find?_insert, if_neg h.1]

theorem find?_insertInto (ms : Memories ps) {s : Snapshot Float}
    (hnames : (ps.map Part.name).Nodup) (i : Fin ps.length) :
    (ms.insertInto s).find? (ps.get i).name = some (ms.kept i) := by
  induction ms generalizing s with
  | nil => exact i.elim0
  | cons m rest ih =>
    rename_i p ps
    rw [List.map_cons, List.nodup_cons] at hnames
    rw [insertInto]
    match i with
    | ⟨0, _⟩ =>
      show (rest.insertInto _).find? p.name = _
      rw [find?_insertInto_of_not_mem rest hnames.1, Snapshot.find?_insert, if_pos rfl]
      rfl
    | ⟨i + 1, hlt⟩ => exact ih hnames.2 ⟨i, Nat.lt_of_succ_lt_succ hlt⟩

/-- Under distinct names each part finds its own memory in the snapshot. -/
theorem find?_snapshot (ms : Memories ps) (hnames : (ps.map Part.name).Nodup)
    (i : Fin ps.length) : ms.snapshot.find? (ps.get i).name = some (ms.kept i) :=
  find?_insertInto ms hnames i

/-- Every memory in the snapshot is that of a part. -/
theorem mem_insertInto (ms : Memories ps) {s : Snapshot Float} {e : String × Datum Float}
    (h : e ∈ (ms.insertInto s).blocks) :
    e ∈ s.blocks ∨ ∃ i, e = ((ps.get i).name, ms.kept i) := by
  induction ms generalizing s with
  | nil => exact .inl h
  | cons m rest ih =>
    rename_i p ps
    rcases ih h with h | ⟨i, hi⟩
    · rcases mem_insertField h with h | h
      · exact .inr ⟨⟨0, Nat.zero_lt_succ _⟩, h⟩
      · exact .inl h
    · exact .inr ⟨⟨i + 1, Nat.succ_lt_succ i.2⟩, hi⟩

theorem mem_snapshot (ms : Memories ps) {e : String × Datum Float}
    (h : e ∈ ms.snapshot.blocks) : ∃ i, e = ((ps.get i).name, ms.kept i) := by
  rcases mem_insertInto ms h with h | h
  · cases h
  · exact h

theorem keysAscend_insertInto (ms : Memories ps) {s : Snapshot Float}
    (h : KeysAscend s.blocks) : KeysAscend (ms.insertInto s).blocks := by
  induction ms generalizing s with
  | nil => exact h
  | cons m rest ih => exact ih (keysAscend_insertField _ _ h)

/-- A snapshot of an assembly is such as files hold. -/
theorem tidy_snapshot (ms : Memories ps) : ms.snapshot.Tidy where
  ascend := keysAscend_insertInto ms .nil
  sorted := by
    intro e he
    obtain ⟨i, rfl⟩ := mem_snapshot ms he
    exact Component.sorted_keep _
  finite := by
    intro e he
    obtain ⟨i, rfl⟩ := mem_snapshot ms he
    exact Component.allFinite_keep _
  nesting := by
    intro e he
    obtain ⟨i, rfl⟩ := mem_snapshot ms he
    have := (Design.lawful (ps.get i).built).nesting_keep (ms.get i)
    have deep : Json.maxDepth = 127 := rfl
    show (ms.kept i).nesting + 2 ≤ _
    unfold kept
    omega

/-- Under distinct names a part finds in the snapshot the memory that it reads from what is kept
of its own. -/
theorem recall_snapshot (ms : Memories ps) (hnames : (ps.map Part.name).Nodup)
    (i : Fin ps.length) :
    (ps.get i).recall ms.snapshot =
      match (ps.get i).component.regain? (ms.kept i) with
      | none => .error .malformed
      | some m => .ok m := by
  unfold Part.recall Snapshot.recall
  rw [find?_snapshot ms hnames]
  simp only
  cases (ps.get i).component.regain? (ms.kept i) <;> rfl

/-- The snapshot gives a part back its own memory when that is finite and legible. -/
theorem recall_snapshot_eq_self_iff (ms : Memories ps) (hnames : (ps.map Part.name).Nodup)
    (i : Fin ps.length) :
    (ps.get i).recall ms.snapshot = .ok (ms.get i) ↔
      (ms.data i).allFinite = true ∧ (ms.data i).legible = true := by
  have self := (Design.lawful (ps.get i).built).regain?_keep_eq_self_iff (ms.get i)
  rw [recall_snapshot ms hnames]
  unfold data
  rw [← self]
  unfold kept
  cases (ps.get i).component.regain? ((ps.get i).component.keep (ms.get i)) with
  | none => simp
  | some m => simp

/-- The snapshot gives a part back some memory when its own is legible. -/
theorem isOk_recall_snapshot (ms : Memories ps) (hnames : (ps.map Part.name).Nodup)
    (i : Fin ps.length) : ((ps.get i).recall ms.snapshot).isOk = (ms.data i).legible := by
  have law := (Design.lawful (ps.get i).built).isSome_regain?_keep (ms.get i)
  rw [recall_snapshot ms hnames]
  unfold data
  rw [← law]
  unfold kept
  cases (ps.get i).component.regain? ((ps.get i).component.keep (ms.get i)) with
  | none => rfl
  | some m => rfl

/-- **A snapshot is restored whole** when all memories are finite and legible. -/
theorem restore_snapshot (ms fresh : Memories ps) (hnames : (ps.map Part.name).Nodup)
    (hfinite : ∀ i, (ms.data i).allFinite = true) (hlegible : ∀ i, (ms.data i).legible = true) :
    fresh.restore ms.snapshot = (.ok (), ms) := by
  have own : ∀ i, (ps.get i).recall ms.snapshot = .ok (ms.get i) := by
    intro i
    exact (recall_snapshot_eq_self_iff ms hnames i).2 ⟨hfinite i, hlegible i⟩
  have all : taken ms.snapshot ps = ps.length := by
    refine congrArg List.length (List.takeWhile_eq_self_iff.2 fun p hp => ?_)
    obtain ⟨i, rfl⟩ := List.get_of_mem hp
    rw [own i]
    rfl
  refine Prod.ext ((restore_ok_iff fresh).2 all) (ext fun i => ?_)
  have there := get_restore_of_lt fresh (s := ms.snapshot) (i := i) (all.symm ▸ i.2)
  rw [own i] at there
  exact (Except.ok.inj there).symm

end Memories

end Snapshot

end ControlBlocks

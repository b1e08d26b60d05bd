import ControlBlocks.Proofs.Assembly.Basic

/-!
# Failed restores

What a failed restore of a checkpoint leaves of an assembly.  The blocks before the one that is
refused have been overwritten by then, and are put back from a snapshot, which can lose infinite
values or be refused itself.

* `Memories.Undone` — the snapshot undoes what was done;
* `Assembly.restore_error` — the two ways in which a restore fails;
* `Assembly.restore_error_exact` — when it leaves everything as it was;
* `Assembly.exists_restore_error_changed` — a failed restore that leaves a changed block.
-/

set_option autoImplicit false

namespace ControlBlocks

section Undone

variable {ps : List Part}

/-- A part is restored when none up to it is refused. -/
theorem lt_taken_iff {s : Snapshot Float} {i : Fin ps.length} :
    i < taken s ps ↔ ∀ j : Fin ps.length, j ≤ i → ((ps.get j).recall s).isOk = true := by
  induction ps with
  | nil => exact i.elim0
  | cons p ps ih =>
    cases hp : p.recall s with
    | error e =>
      rw [taken_cons_of_error hp]
      refine ⟨fun h => absurd h (Nat.not_lt_zero _), ?_⟩
      intro h
      have first := h ⟨0, Nat.zero_lt_succ _⟩ (Nat.zero_le _)
      simp only [List.get_eq_getElem, List.getElem_cons_zero, hp] at first
      cases first
    | ok m =>
      have first : (p.recall s).isOk = true := by rw [hp]; rfl
      rw [taken_cons_of_ok hp]
      match i with
      | ⟨0, _⟩ =>
        refine ⟨fun _ j hj => ?_, fun _ => Nat.zero_lt_succ _⟩
        obtain ⟨j, hlt⟩ := j
        obtain rfl : j = 0 := Nat.le_zero.1 hj
        exact first
      | ⟨i + 1, hlt⟩ =>
        have rest := ih (i := ⟨i, Nat.lt_of_succ_lt_succ hlt⟩)
        rw [show (i + 1 < taken s ps + 1) = (i < taken s ps) from
          propext Nat.add_lt_add_iff_right, rest]
        constructor
        · intro h j hj
          match j with
          | ⟨0, _⟩ => exact first
          | ⟨j + 1, hj'⟩ => exact h ⟨j, Nat.lt_of_succ_lt_succ hj'⟩ (Nat.le_of_succ_le_succ hj)
        · intro h j hj
          exact h ⟨j + 1, Nat.succ_lt_succ j.2⟩ (Nat.succ_le_succ hj)

namespace Memories

/-- What a restore from `file` did is undone by the snapshot that was taken before it. -/
structure Undone (ms : Memories ps) (file : Snapshot Float) : Prop where
  /-- Up to the first part that the snapshot does not restore, it gives each its own memory. -/
  given : ∀ i : Fin ps.length, i < taken ms.snapshot ps →
    (ps.get i).recall ms.snapshot = .ok (ms.get i)
  /-- From there on the file had changed nothing. -/
  unchanged : ∀ i : Fin ps.length, taken ms.snapshot ps ≤ i → i < taken file ps →
    (ps.get i).recall file = .ok (ms.get i)

/-- The memories after a restore from `file` and another from the snapshot taken before it. -/
def rolledBack (ms : Memories ps) (file : Snapshot Float) : Memories ps :=
  ((ms.restore file).2.restore ms.snapshot).2

theorem rolledBack_eq_self_iff (ms : Memories ps) (file : Snapshot Float) :
    ms.rolledBack file = ms ↔ ms.Undone file := by
  constructor
  · intro h
    have hget : ∀ i, ((ms.restore file).2.restore ms.snapshot).2.get i = ms.get i := by
      intro i
      exact congrArg (fun ms => ms.get i) h
    refine ⟨?_, ?_⟩
    · intro i hi
      rw [get_restore_of_lt (ms.restore file).2 hi, hget]
    · intro i hi hfile
      rw [get_restore_of_lt ms hfile, ← hget i, get_restore_of_ge (ms.restore file).2 hi]
  · intro h
    refine ext ?_
    intro i
    -- a part is overwritten by the snapshot, else by the file, else by neither
    rcases Nat.lt_or_ge i (taken ms.snapshot ps) with hi | hi
    · have there := get_restore_of_lt (ms.restore file).2 hi
      rw [h.given i hi] at there
      exact (Except.ok.inj there).symm
    · show ((ms.restore file).2.restore ms.snapshot).2.get i = ms.get i
      rw [get_restore_of_ge (ms.restore file).2 hi]
      rcases Nat.lt_or_ge i (taken file ps) with hfile | hfile
      · have there := get_restore_of_lt ms hfile
        rw [h.unchanged i hi hfile] at there
        exact (Except.ok.inj there).symm
      · exact get_restore_of_ge ms hfile

/-- Under distinct names the snapshot undoes what was done when two things hold: up to the first
part with a number that is not legible all values are finite, and of the parts from there on the
file has changed none. -/
theorem undone_iff_of_nodup (ms : Memories ps) (file : Snapshot Float)
    (hnames : (ps.map Part.name).Nodup) :
    ms.Undone file ↔
      (∀ i : Fin ps.length, (∀ j ≤ i, (ms.data j).legible = true) →
        (ms.data i).allFinite = true) ∧
      ∀ i : Fin ps.length, (∃ j ≤ i, (ms.data j).legible = false) → i < taken file ps →
        (ps.get i).recall file = .ok (ms.get i) := by
  have hlt : ∀ i : Fin ps.length, i < taken ms.snapshot ps ↔
      ∀ j ≤ i, (ms.data j).legible = true := by
    intro i
    rw [lt_taken_iff]
    simp only [isOk_recall_snapshot ms hnames]
  have hge : ∀ i : Fin ps.length, taken ms.snapshot ps ≤ i ↔
      ∃ j ≤ i, (ms.data j).legible = false := by
    intro i
    rw [← Nat.not_lt, hlt]
    simp
  constructor
  · intro h
    refine ⟨?_, ?_⟩
    · intro i hi
      exact ((recall_snapshot_eq_self_iff ms hnames i).1 (h.given i ((hlt i).2 hi))).1
    · intro i hi hfile
      exact h.unchanged i ((hge i).2 hi) hfile
  · rintro ⟨hfinite, hfile⟩
    refine ⟨?_, ?_⟩
    · intro i hi
      have legible := (hlt i).1 hi
      exact (recall_snapshot_eq_self_iff ms hnames i).2
        ⟨hfinite i legible, legible i (Fin.le_refl i)⟩
    · intro i hi
      exact hfile i ((hge i).1 hi)

end Memories

end Undone

/-! ## Restores of checkpoints -/

namespace Assembly

open Checkpoint (Directory)

variable {ο : Type} {a : Assembly ο} {d : Directory} {path : String} {ms ms' : Memories a.parts}
  {c c' : Clock Float} {e : Failure Float}

/-- A restore fails on the file, and does nothing, or on a block, and rolls back. -/
theorem restore_error (h : Checkpoint.restore a.model d path ms c = (.error e, ms', c')) :
    c' = c ∧
      ((∃ e, Checkpoint.load d path = .error e) ∧ ms' = ms ∨
        ∃ r, Checkpoint.load d path = .ok r ∧ ms' = ms.rolledBack r.blocks) := by
  unfold Checkpoint.restore at h
  cases hload : Checkpoint.load d path with
  | error e' =>
    rw [hload] at h
    cases h
    exact ⟨rfl, .inl ⟨⟨_, rfl⟩, rfl⟩⟩
  | ok r =>
    rw [hload] at h
    refine (?_ : c' = c ∧ ms' = ms.rolledBack r.blocks).imp_right fun h => .inr ⟨r, rfl, h⟩
    unfold Memories.rolledBack
    simp only [model] at h
    generalize ms.restore r.blocks = first at h ⊢
    obtain ⟨first, ms₁⟩ := first
    cases first with
    | ok _ => cases h
    | error e₁ =>
      simp only at h ⊢
      generalize ms₁.restore ms.snapshot = second at h ⊢
      obtain ⟨second, ms₂⟩ := second
      cases second <;> (cases h; exact ⟨rfl, rfl⟩)

/-- **Where a failed restore leaves everything as it was.**  It never touches the clock, and
nothing else where the file cannot be read.  Otherwise the blocks are as they were exactly when the
snapshot taken before undoes what the file did: under distinct names, when up to the first block
with a number that is not legible all values are finite, and from there on the file has changed
nothing. -/
theorem restore_error_exact
    (h : Checkpoint.restore a.model d path ms c = (.error e, ms', c')) :
    c' = c ∧
    (ms' = ms ↔ ∀ r, Checkpoint.load d path = .ok r → ms.Undone r.blocks) ∧
    ((a.parts.map Part.name).Nodup →
      (ms' = ms ↔ ∀ r, Checkpoint.load d path = .ok r →
        (∀ i : Fin a.parts.length, (∀ j ≤ i, (ms.data j).legible = true) →
          (ms.data i).allFinite = true) ∧
        ∀ i : Fin a.parts.length, (∃ j ≤ i, (ms.data j).legible = false) →
          i < taken r.blocks a.parts → (a.parts.get i).recall r.blocks = .ok (ms.get i))) := by
  obtain ⟨hclock, hms⟩ := restore_error h
  have undone : ms' = ms ↔ ∀ r, Checkpoint.load d path = .ok r → ms.Undone r.blocks := by
    rcases hms with ⟨⟨e', hload⟩, hms⟩ | ⟨r, hload, rfl⟩
    · refine ⟨fun _ r hr => ?_, fun _ => hms⟩
      rw [hload] at hr
      cases hr
    · rw [Memories.rolledBack_eq_self_iff]
      refine ⟨fun h r' hr' => ?_, fun h => h r hload⟩
      rw [hload] at hr'
      cases hr'
      exact h
  refine ⟨hclock, undone, fun hnames => undone.trans ?_⟩
  simp only [Memories.undone_iff_of_nodup _ _ hnames]

/-! ## A delay and a latch -/

/-- A delay and a latch; what they do in a step does not matter here. -/
def delayAndLatch : Assembly Unit where
  parts := [.unitDelay "a" 0, .latch "b"]
  react := fun _ ms => (.ok (), ms)

/-- The memories of the two, the delay with an input to give back. -/
def holding (x : Float) : Memories delayAndLatch.parts :=
  .cons (⟨x, false⟩ : Edges.Delayed Float) (.cons Bistable.initial .nil)

/-- A checkpoint that knows the delay but not the latch. -/
def partialRecord : Checkpoint.Record where
  createdAt := "2027-01-15T08:00:00Z"
  clock := ⟨.simulation, 1.0, none⟩
  blocks := (Memories.cons (⟨5.0, false⟩ : Edges.Delayed Float) .nil :
    Memories (delayAndLatch.parts.take 1)).snapshot
  metadata := .null

/-- A directory with that checkpoint in it. -/
def partialFolder : Directory :=
  ⟨"checkpoints", some [(["partial.json"], .file partialRecord.text)]⟩

theorem parse?_partialRecord :
    Checkpoint.Record.parse? partialRecord.text = some partialRecord := by
  refine Checkpoint.Record.parse?_text ⟨rfl, rfl, by decide, ?_⟩ rfl (Memories.tidy_snapshot _)
  intro n hn
  cases hn

theorem load_partialFolder : Checkpoint.load partialFolder "partial.json" = .ok partialRecord := by
  have flat : '/' ∉ "partial.json".toList := by decide
  have fits : Checkpoint.isPath (partialFolder.fullPath "partial.json") = true := by decide
  have read : partialFolder.read "partial.json" =
      (.ok partialRecord.text : Except (Failure Float) String) := by
    rw [Directory.read, Directory.find?_of_isName partialFolder (by decide) flat, if_pos fits]
    rfl
  rw [Checkpoint.load, read]
  simp only [parse?_partialRecord]

/-- A finite input is put back when the file is refused. -/
theorem undone_holding :
    Checkpoint.restore delayAndLatch.model partialFolder "partial.json" (holding 1.5)
        ⟨.simulation, 0, none⟩ =
      (.error (.missingBlockState "b"), holding 1.5, ⟨.simulation, 0, none⟩) ∧
    (holding 1.5).Undone partialRecord.blocks := by
  have refused : Checkpoint.restore delayAndLatch.model partialFolder "partial.json" (holding 1.5)
      ⟨.simulation, 0, none⟩ =
        (.error (.missingBlockState "b"), holding 1.5, ⟨.simulation, 0, none⟩) := by
    rw [Checkpoint.restore, load_partialFolder]
    rfl
  exact ⟨refused, (restore_error_exact refused).2.1.1 rfl _ load_partialFolder⟩

/-- **A failed restore can leave a changed block**: the delay had come to hold a value that is not
finite, which cannot be put back. -/
theorem exists_restore_error_changed :
    ∃ (a : Assembly Unit) (d : Directory) (path : String) (ms ms' : Memories a.parts)
      (c c' : Clock Float) (e : Failure Float),
      (∀ i, (a.parts.get i).component.Reachable (ms.get i)) ∧
        Checkpoint.restore a.model d path ms c = (.error e, ms', c') ∧ ms' ≠ ms := by
  refine ⟨delayAndLatch, partialFolder, "partial.json", holding (0.0 / 0.0), holding 5.0,
    ⟨.simulation, 0, none⟩, ⟨.simulation, 0, none⟩, .malformed, ?_, ?_, ?_⟩
  · intro i
    match i with
    | ⟨0, _⟩ =>
      exact .step (s := (⟨0, true⟩ : Edges.Delayed Float)) true 0 ⟨.simulation, 0, none⟩
        (0.0 / 0.0 : Float) (.start true 0 ⟨.simulation, 0, none⟩) rfl
    | ⟨1, _⟩ => exact .start true 0 ⟨.simulation, 0, none⟩
  · rw [Checkpoint.restore, load_partialFolder]
    rfl
  · intro h
    have finite := congrArg (fun ms => (ms.data ⟨0, Nat.zero_lt_succ _⟩).allFinite) h
    revert finite
    decide

end Assembly

end ControlBlocks

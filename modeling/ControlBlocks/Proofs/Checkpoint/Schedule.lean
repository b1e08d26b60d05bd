import ControlBlocks.Checkpoint.AutoSaver
import ControlBlocks.Proofs.Block.Built
import ControlBlocks.Proofs.Checkpoint.Upkeep

/-!
# The schedule of an auto-saver

Which steps of a run are saved, under which numbers, and which files are there in the end.

* `AutoSaver.retained` — what a saver leaves of a list of files;
* `AutoSaver.Turns` — a saver at work after the first steps of a run;
* `AutoSaver.afterStep_of_not_dvd`, `afterStep_of_dvd` — what it does after one step;
* `AutoSaver.Turns.progress`, `schedule_exact` — what it has done after any number of them.
-/

set_option autoImplicit false

namespace ControlBlocks.AutoSaver

universe u

open Checkpoint (Directory Record fileName fileIndex?)

/-- The files that a saver leaves of a list: the last ones, or all. -/
def retained {β : Type} (a : AutoSaver) (files : List β) : List β :=
  match a.keep with
  | some keep => files.drop (files.length - keep)
  | none => files

/-- What was left before may as well have been left with all the rest. -/
theorem retained_append {β : Type} (a : AutoSaver) (files more : List β) :
    a.retained (a.retained files ++ more) = a.retained (files ++ more) := by
  unfold retained
  cases a.keep with
  | none => rfl
  | some keep =>
    have le : files.length - keep ≤ files.length := Nat.sub_le _ _
    simp only [← List.drop_append_of_le_length le, List.drop_drop, List.length_drop,
      List.length_append]
    congr 1
    omega

variable {σ : Type u} {ο : Type} {a : AutoSaver} {m : Model Float σ ο} {d d' : Directory}
  {n : Nat} {saved : List (Nat × String)}

/-- The saver has done its part after each of the first steps of a run, never in vain: the files
that it saved with their steps, and the directory in the end. -/
inductive Turns (a : AutoSaver) (m : Model Float σ ο) (d : Directory) :
    Nat → List (Nat × String) → Directory → Prop where
  | zero : Turns a m d 0 [] d
  | succ {n : Nat} {saved : List (Nat × String)} {d' d'' : Directory} {createdAt : String} {s : σ}
      {c : Clock Float} {metadata : Datum Float} {file : Option String}
      (before : Turns a m d n saved d')
      (h : a.afterStep m d' createdAt s c n metadata = .ok (file, d'')) :
      Turns a m d (n + 1) (saved ++ file.toList.map fun name => (n, name)) d''

/-- After a step that closes no interval nothing happens. -/
theorem afterStep_of_not_dvd {createdAt : String} {s : σ} {c : Clock Float}
    {metadata : Datum Float} {file : Option String} (hn : ¬ a.every ∣ n + 1)
    (h : a.afterStep m d createdAt s c n metadata = .ok (file, d')) : file = none ∧ d' = d := by
  rw [Nat.dvd_iff_mod_eq_zero] at hn
  rw [afterStep, if_pos hn] at h
  cases h
  exact ⟨rfl, rfl⟩

/-- After a step that closes an interval there is one file more, and then what is left of all. -/
theorem afterStep_of_dvd {createdAt : String} {s : σ} {c : Clock Float} {metadata : Datum Float}
    {file : Option String} (hkeep : ∀ keep, a.keep = some keep → 0 < keep) (hd : d.Distinct)
    (room : d.nextIndex < 0x10000000000000000) (hn : a.every ∣ n + 1)
    (h : a.afterStep m d createdAt s c n metadata = .ok (file, d')) :
    file = some (fileName d.nextIndex) ∧ d'.Distinct ∧ d'.nextIndex = d.nextIndex + 1 ∧
      d'.checkpoints = a.retained (d.checkpoints ++ [fileName d.nextIndex]) := by
  rw [Nat.dvd_iff_mod_eq_zero] at hn
  rw [afterStep, if_neg (not_not.2 hn)] at h
  obtain ⟨⟨name, written⟩, hsave, h⟩ := map_eq_ok_iff.1 h
  obtain ⟨rfl, saves⟩ := Checkpoint.saves_of_save hd room hsave
  unfold retained
  cases hk : a.keep with
  | none =>
    simp only [hk] at h
    cases h
    exact ⟨rfl, saves.distinct hd, saves.nextIndex, saves.checkpoints⟩
  | some keep =>
    simp only [hk] at h
    cases h
    have distinct := saves.distinct hd
    have prunes := Directory.prunes_prune distinct keep
    refine ⟨rfl, prunes.distinct distinct, ?_, ?_⟩
    · rw [prunes.nextIndex (hkeep keep hk), saves.nextIndex]
    · rw [prunes.checkpoints, saves.checkpoints]

/-- How far the saver has come after some steps. -/
structure Progress (a : AutoSaver) (d : Directory) (n : Nat) (saved : List (Nat × String))
    (d' : Directory) : Prop where
  distinct : d'.Distinct
  next : d'.nextIndex = d.nextIndex + n / a.every
  steps : saved.map Prod.fst = (List.range n).filter fun s => a.every ∣ s + 1
  files : saved.map Prod.snd = (List.range' d.nextIndex (n / a.every)).map fileName
  checkpoints : d'.checkpoints =
    if saved = [] then d.checkpoints else a.retained (d.checkpoints ++ saved.map Prod.snd)

theorem Turns.progress (hkeep : ∀ keep, a.keep = some keep → 0 < keep) (hd : d.Distinct)
    (room : d.nextIndex + n / a.every ≤ 0x10000000000000000) (h : a.Turns m d n saved d') :
    a.Progress d n saved d' := by
  induction h with
  | zero => exact ⟨hd, by simp, rfl, by simp, by simp⟩
  | @succ n saved d' d'' createdAt s c metadata file before h ih =>
    have le : n / a.every ≤ (n + 1) / a.every := Nat.div_le_div_right (Nat.le_succ n)
    have p := ih (by omega)
    by_cases hn : a.every ∣ n + 1
    · have count : (n + 1) / a.every = n / a.every + 1 := Nat.succ_div_of_dvd hn
      have room : d'.nextIndex < 0x10000000000000000 := by
        rw [p.next]
        omega
      obtain ⟨rfl, distinct, next, checkpoints⟩ := afterStep_of_dvd hkeep p.distinct room hn h
      refine ⟨distinct, ?_, ?_, ?_, ?_⟩
      · rw [next, p.next, count, Nat.add_assoc]
      · rw [List.map_append, p.steps, List.range_succ, List.filter_append]
        simp [hn]
      · rw [List.map_append, p.files, p.next, count, List.range'_1_concat, List.map_append]
        rfl
      · have nonempty :
            saved ++ (some (fileName d'.nextIndex)).toList.map (fun f => (n, f)) ≠ [] := by
          simp
        rw [checkpoints, p.checkpoints, if_neg nonempty, List.map_append, ← List.append_assoc]
        split
        · next none => simp [none]
        · exact a.retained_append _ _
    · have count : (n + 1) / a.every = n / a.every := Nat.succ_div_of_not_dvd hn
      obtain ⟨rfl, rfl⟩ := afterStep_of_not_dvd hn h
      refine ⟨p.distinct, ?_, ?_, ?_, ?_⟩
      · rw [p.next, count]
      · rw [List.map_append, p.steps, List.range_succ, List.filter_append]
        simp [hn]
      · rw [List.map_append, p.files, count]
        exact List.append_nil _
      · rw [p.checkpoints]
        simp

/-- **The schedule of an auto-saver.**  After `n` steps it has saved `n / every` files, after the
steps that close an interval.  Their numbers follow one another from the least that is above all
that were there, and no name is given twice.  The files that were there and those that were saved
are listed in this order, only the last of them if so many are kept and there was a save. -/
theorem schedule_exact (hkeep : ∀ keep, a.keep = some keep → 0 < keep)
    (hd : d.Distinct) (room : d.nextIndex + n / a.every ≤ 0x10000000000000000)
    (h : a.Turns m d n saved d') :
    saved.length = n / a.every ∧
    saved.map Prod.fst = (List.range n).filter (fun s => a.every ∣ s + 1) ∧
    IsLeast {i | ∀ file ∈ d.checkpoints, ∀ j, fileIndex? file = some j → j < i} d.nextIndex ∧
    (saved.map Prod.snd).map fileIndex? =
      (List.range' d.nextIndex (n / a.every)).map some ∧
    (d.checkpoints ++ saved.map Prod.snd).Nodup ∧
    d'.checkpoints =
      if saved = [] then d.checkpoints else a.retained (d.checkpoints ++ saved.map Prod.snd) := by
  have p := h.progress hkeep hd room
  have numbers : (saved.map Prod.snd).map fileIndex? =
      (List.range' d.nextIndex (n / a.every)).map some := by
    rw [p.files, List.map_map]
    refine List.map_congr_left fun i hi => ?_
    have small : i < 0x10000000000000000 := by
      have := (List.mem_range'_1.1 hi).2
      omega
    rw [Function.comp_apply, Checkpoint.fileIndex?_fileName small]
  refine ⟨?_, p.steps, d.isLeast_nextIndex, numbers, ?_, p.checkpoints⟩
  · have := congrArg List.length p.files
    simpa using this
  · refine List.Nodup.of_map fileIndex? ?_
    rw [List.map_append, d.map_fileIndex?_checkpoints, numbers, ← List.map_append]
    refine List.Nodup.map (Option.some_injective _)
      (List.nodup_append.2 ⟨hd, List.nodup_range', ?_⟩)
    intro i hi j hj
    obtain ⟨e, he, rfl⟩ := List.mem_map.1 hi
    have := Directory.lt_nextIndex he
    have := (List.mem_range'_1.1 hj).1
    omega

/-- Of three steps the second is saved, and a file from before has to go. -/
theorem schedule_mixedFolder :
    AutoSaver.Turns ⟨2, some 2⟩ Network.model Checkpoint.mixedFolder 3
        [(1, "checkpoint_000013.json")] (Checkpoint.savedFolder.prune 2).2 ∧
      (Checkpoint.savedFolder.prune 2).2.checkpoints =
        ["checkpoint_12.json", "checkpoint_000013.json"] := by
  have saves : AutoSaver.afterStep ⟨2, some 2⟩ Network.model Checkpoint.mixedFolder
      Checkpoint.nextRecord.createdAt ⟨[], []⟩ Checkpoint.nextRecord.clock 1
      Checkpoint.nextRecord.metadata =
        .ok (some "checkpoint_000013.json", (Checkpoint.savedFolder.prune 2).2) := by
    rw [afterStep, if_neg (by decide), Checkpoint.save_mixedFolder]
    rfl
  have idles (d : Directory) (n : Nat) (hn : (n + 1) % 2 ≠ 0) :
      AutoSaver.afterStep ⟨2, some 2⟩ Network.model d Checkpoint.nextRecord.createdAt ⟨[], []⟩
        Checkpoint.nextRecord.clock n Checkpoint.nextRecord.metadata = .ok (none, d) := by
    rw [afterStep, if_pos hn]
  have turns : AutoSaver.Turns ⟨2, some 2⟩ Network.model Checkpoint.mixedFolder 3
      [(1, "checkpoint_000013.json")] (Checkpoint.savedFolder.prune 2).2 :=
    .succ (.succ (.succ .zero (idles _ 0 (by decide))) saves) (idles _ 2 (by decide))
  have room : Checkpoint.mixedFolder.nextIndex + 3 / 2 ≤ 0x10000000000000000 := by
    rw [Checkpoint.nextIndex_mixedFolder]
    decide
  have keeps : ∀ keep, some 2 = some keep → 0 < keep := by
    rintro keep ⟨⟩
    decide
  have schedule := schedule_exact keeps Checkpoint.distinct_mixedFolder room turns
  refine ⟨turns, ?_⟩
  rw [schedule.2.2.2.2.2, Checkpoint.checkpoints_mixedFolder]
  rfl

end ControlBlocks.AutoSaver

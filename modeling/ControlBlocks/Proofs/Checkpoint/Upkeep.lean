import ControlBlocks.Checkpoint.Store
import ControlBlocks.Network.Basic
import ControlBlocks.Proofs.Checkpoint.Files
import Mathlib.Data.List.Sort
import Mathlib.Order.Bounds.Basic

/-!
# Saves and prunes of a directory

What becomes of a directory in which checkpoints are saved and old ones removed, in any order.  It
may hold any other files, and checkpoints with names that no save would give them.

* `fileIndex?_eq_some_iff` — which names are names of checkpoints;
* `Directory.Distinct` — no two checkpoints have the same number;
* `Directory.indexed_eq_of_perm` — the listing is the order of ascending numbers;
* `Directory.Saves`, `saves_of_save` — what a save does;
* `Directory.Prunes`, `Directory.prunes_prune` — what a prune does;
* `Upkeep`, `upkeep_exact` — what any saves and prunes do, one after another.
-/

set_option autoImplicit false

namespace ControlBlocks.Checkpoint

universe u

/-! ## Names -/

theorem afterStart?_eq_some_iff {start cs rest : List Char} :
    afterStart? start cs = some rest ↔ cs = start ++ rest := by
  unfold afterStart?
  constructor
  · intro h
    split at h
    · next opens =>
      obtain ⟨tail, rfl⟩ := List.isPrefixOf_iff_prefix.1 opens
      rw [List.drop_left, Option.some_inj] at h
      rw [h]
    · cases h
  · rintro rfl
    exact afterStart?_append start rest

theorem beforeEnd?_eq_some_iff {ending cs rest : List Char} :
    beforeEnd? ending cs = some rest ↔ cs = rest ++ ending := by
  unfold beforeEnd?
  rw [Option.map_eq_some_iff]
  simp only [afterStart?_eq_some_iff]
  constructor
  · rintro ⟨front, hcs, rfl⟩
    rw [← List.reverse_reverse cs, hcs, List.reverse_append, List.reverse_reverse]
  · rintro rfl
    exact ⟨rest.reverse, List.reverse_append, List.reverse_reverse rest⟩

/-- The names of checkpoints: a number between a fixed beginning and a fixed end. -/
theorem fileIndex?_eq_some_iff {name : String} {i : Nat} :
    fileIndex? name = some i ↔
      ∃ cs, name = nameStart ++ String.ofList cs ++ nameEnd ∧ number? cs = some i := by
  have spelled (cs : List Char) : name = nameStart ++ String.ofList cs ++ nameEnd ↔
      name.toList = (nameStart.toList ++ cs) ++ nameEnd.toList := by
    rw [← String.toList_inj]
    simp only [String.toList_append, String.toList_ofList]
  simp only [fileIndex?, Option.bind_eq_some_iff, beforeEnd?_eq_some_iff, afterStart?_eq_some_iff,
    spelled]
  constructor
  · rintro ⟨cs, ⟨front, hname, rfl⟩, hi⟩
    exact ⟨cs, hname, hi⟩
  · rintro ⟨cs, hname, hi⟩
    exact ⟨cs, ⟨_, hname, rfl⟩, hi⟩

theorem lt_of_number? {cs : List Char} {i : Nat} (h : number? cs = some i) :
    i < 0x10000000000000000 := by
  unfold number? at h
  simp only at h
  split at h
  · cases h
  · split at h
    · next small =>
      cases h
      exact small
    · cases h

namespace Directory

/-! ## The listing -/

variable {d d' : Directory} {name text : String} {i : Nat}

theorem indexed?_eq_some_iff {e : Location × Entry} :
    indexed? e = some (i, name) ↔ ∃ text, e = ([name], .file text) ∧ fileIndex? name = some i := by
  unfold indexed?
  split
  · next other text =>
    simp only [Option.map_eq_some_iff, Prod.mk.injEq]
    constructor
    · rintro ⟨j, hj, rfl, rfl⟩
      exact ⟨text, ⟨rfl, rfl⟩, hj⟩
    · rintro ⟨text', ⟨hname, -⟩, hi⟩
      cases hname
      exact ⟨i, hi, rfl, rfl⟩
  · next h =>
    simp only [reduceCtorEq, false_iff]
    rintro ⟨text, rfl, -⟩
    exact h name text rfl

/-- The files that are listed are those whose names have numbers. -/
theorem mem_indexed_iff :
    (i, name) ∈ d.indexed ↔
      ∃ text, ([name], .file text) ∈ d.entries ∧ fileIndex? name = some i := by
  unfold indexed
  rw [List.mem_mergeSort, List.mem_filterMap]
  simp only [indexed?_eq_some_iff]
  constructor
  · rintro ⟨e, he, text, rfl, hi⟩
    exact ⟨text, he, hi⟩
  · rintro ⟨text, he, hi⟩
    exact ⟨_, he, text, rfl, hi⟩

theorem fileIndex?_of_mem_indexed {e : Nat × String} (h : e ∈ d.indexed) :
    fileIndex? e.2 = some e.1 := by
  obtain ⟨text, -, hi⟩ := mem_indexed_iff.1 h
  exact hi

theorem map_fileIndex?_checkpoints (d : Directory) :
    d.checkpoints.map fileIndex? = (d.indexed.map Prod.fst).map some := by
  unfold checkpoints
  rw [List.map_map, List.map_map]
  exact List.map_congr_left fun e he => fileIndex?_of_mem_indexed he

/-- No two checkpoints have the same number. -/
def Distinct (d : Directory) : Prop := (d.indexed.map Prod.fst).Nodup

theorem indexed_perm (d : Directory) : d.indexed.Perm (d.entries.filterMap indexed?) :=
  List.mergeSort_perm _ _

theorem indexed_pairwise_le (d : Directory) : d.indexed.Pairwise fun a b => a.1 ≤ b.1 := by
  refine (List.pairwise_mergeSort ?_ ?_ _).imp of_decide_eq_true
  · intro a b c hab hbc
    rw [decide_eq_true_eq] at *
    exact Nat.le_trans hab hbc
  · intro a b
    simpa using Nat.le_total a.1 b.1

theorem Distinct.ascend (h : d.Distinct) : d.indexed.Pairwise fun a b => a.1 < b.1 := by
  refine ((indexed_pairwise_le d).and (List.pairwise_map.1 h)).imp fun hab => ?_
  exact Nat.lt_of_le_of_ne hab.1 hab.2

/-- The listing is the only order of the numbered files in which the numbers ascend. -/
theorem indexed_eq_of_perm {files : List (Nat × String)}
    (hascend : files.Pairwise fun a b => a.1 < b.1)
    (hperm : files.Perm (d.entries.filterMap indexed?)) : d.indexed = files := by
  have perm : d.indexed.Perm files := d.indexed_perm.trans hperm.symm
  have distinct : d.Distinct := by
    refine (perm.map Prod.fst).nodup_iff.2 (List.pairwise_map.2 ?_)
    exact hascend.imp Nat.ne_of_lt
  refine perm.eq_of_pairwise ?_ distinct.ascend hascend
  intro a b _ _ hab hba
  exact absurd hab (Nat.lt_asymm hba)

theorem lt_nextIndex {e : Nat × String} (h : e ∈ d.indexed) : e.1 < d.nextIndex := by
  unfold nextIndex
  have sorted := d.indexed_pairwise_le
  cases hlast : d.indexed.getLast? with
  | none =>
    rw [List.getLast?_eq_none_iff.1 hlast] at h
    cases h
  | some last =>
    obtain ⟨front, hfront⟩ := List.getLast?_eq_some_iff.1 hlast
    rw [hfront] at h sorted
    have le : e.1 ≤ last.1 := by
      rcases List.mem_append.1 h with he | he
      · exact (List.pairwise_append.1 sorted).2.2 e he last (List.mem_singleton.2 rfl)
      · rw [List.mem_singleton.1 he]
    exact Nat.lt_succ_of_le le

/-- The next number is the least one above all that are in use. -/
theorem isLeast_nextIndex (d : Directory) :
    IsLeast {i | ∀ file ∈ d.checkpoints, ∀ j, fileIndex? file = some j → j < i} d.nextIndex := by
  constructor
  · intro file hfile j hj
    obtain ⟨e, he, rfl⟩ := List.mem_map.1 hfile
    rw [fileIndex?_of_mem_indexed he, Option.some_inj] at hj
    exact hj ▸ lt_nextIndex he
  · intro i hi
    unfold nextIndex
    cases hlast : d.indexed.getLast? with
    | none => exact Nat.zero_le i
    | some last =>
      have there := List.mem_of_getLast? hlast
      exact hi last.2 (List.mem_map_of_mem there) last.1 (fileIndex?_of_mem_indexed there)

/-! ## Saving -/

theorem isAround_of_fileIndex? (h : fileIndex? name = some i) :
    Location.isAround [name] = false := by
  have noSlash : name ≠ "/" := by
    rintro rfl
    have none : fileIndex? "/" = none := by decide
    rw [none] at h
    cases h
  have noDots : name ≠ ".." := by
    rintro rfl
    have none : fileIndex? ".." = none := by decide
    rw [none] at h
    cases h
  simp [Location.isAround, noSlash, noDots]

theorem put_of_lookup_eq_none {l : Location} {e : Entry} {stored : List (Location × Entry)}
    (h : stored.lookup l = none) : put l e stored = stored ++ [(l, e)] := by
  induction stored with
  | nil => rfl
  | cons head rest ih =>
    obtain ⟨k, v⟩ := head
    rw [lookup_cons_eq_ite] at h
    split at h
    · cases h
    · next hne => rw [put, if_neg (Ne.symm hne), ih h, List.cons_append]

/-- A file is written where there is no folder. -/
theorem write_cases (flat : '/' ∉ name.toList)
    (w : d.write name text = (.ok d' : Except (Failure Float) Directory)) :
    ∃ stored, d.contents = some stored ∧ Location.isAround [name] = false ∧
      stored.lookup [name] ≠ some .folder ∧ d' = d.set [name] (.file text) := by
  rw [write_of_not_mem d flat] at w
  split at w
  · next fits =>
    rw [Bool.and_eq_true] at fits
    have notAround := Location.isAround_of_isName fits.2 flat
    unfold writeAt at w
    split at w
    · next room =>
      cases w
      cases hc : d.contents with
      | none => simp [isFolder, at?, hc] at room
      | some stored =>
        refine ⟨stored, rfl, notAround, ?_, rfl⟩
        intro folder
        simp [isFolder, at?, hc, notAround, folder] at room
    · cases w
  · cases w

/-- The directory after the checkpoint `name` was written to it, with a text. -/
structure Saves (d : Directory) (name text : String) (d' : Directory) : Prop where
  /-- There was nothing of that name. -/
  fresh : d.at? [name] = none
  read : (d'.read name : Except (Failure Float) String) = .ok text
  elsewhere : ∀ l, l ≠ [name] → d'.at? l = d.at? l
  indexed : d'.indexed = d.indexed ++ [(d.nextIndex, name)]

/-- **A save adds one file**, the last of the listing. -/
theorem saves_of_write (hd : d.Distinct) (room : d.nextIndex < 0x10000000000000000)
    (w : d.write (fileName d.nextIndex) text = (.ok d' : Except (Failure Float) Directory)) :
    d.Saves (fileName d.nextIndex) text d' := by
  have flat := not_mem_fileName d.nextIndex
  have index := fileIndex?_fileName room
  obtain ⟨stored, hc, notAround, noFolder, rfl⟩ := write_cases flat w
  have before : d.entries = stored := by rw [entries, hc, Option.getD_some]
  have fresh : stored.lookup [fileName d.nextIndex] = none := by
    cases hl : stored.lookup [fileName d.nextIndex] with
    | none => rfl
    | some e =>
      cases e with
      | folder => exact absurd hl noFolder
      | file old =>
        -- A file of that name would be listed, with a number below the next one.
        obtain ⟨front, back, rfl, -⟩ := List.lookup_eq_some_iff.1 hl
        have listed : (d.nextIndex, fileName d.nextIndex) ∈ d.indexed :=
          mem_indexed_iff.2 ⟨old, by simp [before], index⟩
        exact absurd (lt_nextIndex listed) (Nat.lt_irrefl _)
  refine ⟨?_, read_write flat w, ?_, ?_⟩
  · simp [at?, hc, notAround, fresh]
  · intro l hl
    simp [at?, set, hc, lookup_put, hl]
  · refine indexed_eq_of_perm ?_ ?_
    · refine List.pairwise_append.2 ⟨hd.ascend, List.pairwise_singleton _ _, ?_⟩
      intro a ha b hb
      rw [List.mem_singleton.1 hb]
      exact lt_nextIndex ha
    · have after : (d.set [fileName d.nextIndex] (.file text)).entries.filterMap indexed? =
          d.entries.filterMap indexed? ++ [(d.nextIndex, fileName d.nextIndex)] := by
        simp [entries, set, hc, put_of_lookup_eq_none fresh, indexed?, index]
      rw [after]
      exact d.indexed_perm.append_right _

/-! ## Pruning -/

theorem lookup_filter_key (p : Location → Bool) (l : Location) (stored : List (Location × Entry)) :
    (stored.filter fun e => p e.1).lookup l = if p l then stored.lookup l else none := by
  induction stored with
  | nil => simp
  | cons head rest ih =>
    rw [List.filter_cons]
    split
    · next kept =>
      rw [lookup_cons_eq_ite, lookup_cons_eq_ite, ih]
      split
      · next same => rw [same, if_pos kept]
      · rfl
    · next gone =>
      rw [ih, lookup_cons_eq_ite]
      split
      · next kept =>
        have other : l ≠ head.1 := by
          rintro rfl
          exact gone kept
        rw [if_neg other]
      · rfl

/-- Without the names of its front, a list of distinct names is its back. -/
theorem filter_append_of_nodup {front back : List (Nat × String)}
    (h : ((front ++ back).map Prod.snd).Nodup) :
    (front ++ back).filter (fun e => !(front.map Prod.snd).contains e.2) = back := by
  rw [List.map_append, List.nodup_append] at h
  rw [List.filter_append]
  have gone : front.filter (fun e => !(front.map Prod.snd).contains e.2) = [] := by
    refine List.filter_eq_nil_iff.2 fun e he => ?_
    simpa using ⟨e.1, he⟩
  have left : back.filter (fun e => !(front.map Prod.snd).contains e.2) = back := by
    refine List.filter_eq_self.2 fun e he => ?_
    have other : e.2 ∉ front.map Prod.snd := fun there =>
      h.2.2 e.2 there e.2 (List.mem_map_of_mem he) rfl
    simpa using other
  rw [gone, left, List.nil_append]

theorem Distinct.checkpoints_nodup (h : d.Distinct) : d.checkpoints.Nodup := by
  refine List.Nodup.of_map fileIndex? ?_
  rw [map_fileIndex?_checkpoints]
  exact h.map (Option.some_injective _)

/-- What is not one of the names is left as it was. -/
theorem at?_without {names : List String} {l : Location} (h : ∀ name ∈ names, l ≠ [name]) :
    (d.without names).at? l = d.at? l := by
  have kept : (!names.any fun name => l == [name]) = true := by
    simpa using h
  unfold at? without
  cases d.contents with
  | none => rfl
  | some stored =>
    have same := lookup_filter_key (fun l => !names.any fun name => l == [name]) l stored
    simp only [kept, if_true] at same
    simp only [Option.map_some, Option.bind_some, same]

/-- A file of one of the names is gone. -/
theorem at?_without_of_mem {names : List String} (h : name ∈ names)
    (flat : Location.isAround [name] = false) : (d.without names).at? [name] = none := by
  have gone : (!names.any fun other => [name] == [other]) = false := by
    simpa using h
  unfold at? without
  cases d.contents with
  | none => rfl
  | some stored =>
    have none := lookup_filter_key (fun l => !names.any fun other => l == [other]) [name] stored
    simp only [gone, Bool.false_eq_true, if_false] at none
    simp only [Option.map_some, Option.bind_some, none, flat, Bool.false_eq_true, if_false]

theorem filterMap_indexed?_without (d : Directory) (names : List String) :
    (d.without names).entries.filterMap indexed? =
      (d.entries.filterMap indexed?).filter fun e => !names.contains e.2 := by
  have entries : (d.without names).entries =
      d.entries.filter fun e => !names.any fun name => e.1 == [name] := by
    unfold without Directory.entries
    cases d.contents <;> rfl
  rw [entries]
  induction d.entries with
  | nil => rfl
  | cons e rest ih =>
    rw [List.filter_cons, List.filterMap_cons]
    cases he : indexed? e with
    | none =>
      split
      · rw [List.filterMap_cons, he, ih]
      · exact ih
    | some numbered =>
      obtain ⟨i, name⟩ := numbered
      obtain ⟨text, rfl, -⟩ := indexed?_eq_some_iff.1 he
      have same : (!names.any fun other => [name] == [other]) = !names.contains name := by
        rw [List.contains_eq_any_beq]
        exact congrArg (fun p => !names.any p) (funext fun other => by simp)
      rw [List.filter_cons, same]
      split
      · rw [List.filterMap_cons, he, ih]
      · exact ih

/-- The directory after all but the newest `keep` checkpoints were removed. -/
structure Prunes (d : Directory) (keep : Nat) (d' : Directory) : Prop where
  indexed : d'.indexed = d.indexed.drop (d.indexed.length - keep)
  removed : ∀ name ∈ d.checkpoints.take (d.checkpoints.length - keep), d'.at? [name] = none
  elsewhere : ∀ l, (∀ name ∈ d.checkpoints.take (d.checkpoints.length - keep), l ≠ [name]) →
    d'.at? l = d.at? l

/-- **A prune removes the first files of the listing**, and nothing else. -/
theorem prunes_prune (hd : d.Distinct) (keep : Nat) : d.Prunes keep (d.prune keep).2 := by
  refine ⟨?_, ?_, fun l hl => at?_without hl⟩
  · have cut := List.take_append_drop (d.indexed.length - keep) d.indexed
    have names : d.checkpoints.take (d.checkpoints.length - keep) =
        (d.indexed.take (d.indexed.length - keep)).map Prod.snd := by
      rw [checkpoints, List.length_map, List.map_take]
    have left : d.indexed.filter (fun e =>
        !((d.indexed.take (d.indexed.length - keep)).map Prod.snd).contains e.2) =
        d.indexed.drop (d.indexed.length - keep) := by
      have distinct := hd.checkpoints_nodup
      rw [checkpoints, ← cut] at distinct
      have back := filter_append_of_nodup distinct
      rwa [cut] at back
    refine indexed_eq_of_perm (hd.ascend.drop) ?_
    show List.Perm _ ((d.without _).entries.filterMap indexed?)
    rw [filterMap_indexed?_without, names, ← left]
    exact d.indexed_perm.filter _
  · intro name hname
    obtain ⟨e, he, rfl⟩ := List.mem_map.1 (List.mem_of_mem_take hname)
    exact at?_without_of_mem hname (isAround_of_fileIndex? (fileIndex?_of_mem_indexed he))

/-! ## The next number -/

/-- While the greatest number is not in use there is a next one. -/
theorem nextIndex_lt (h : ∀ name ∈ d.checkpoints, fileIndex? name ≠ some 0xFFFFFFFFFFFFFFFF) :
    d.nextIndex < 0x10000000000000000 := by
  unfold nextIndex
  cases hlast : d.indexed.getLast? with
  | none => exact Nat.zero_lt_succ _
  | some last =>
    have there := List.mem_of_getLast? hlast
    have index := fileIndex?_of_mem_indexed there
    have notGreatest := h last.2 (List.mem_map_of_mem there)
    obtain ⟨cs, -, hcs⟩ := fileIndex?_eq_some_iff.1 index
    have small := lt_of_number? hcs
    rw [index, ne_eq, Option.some_inj] at notGreatest
    show last.1 + 1 < _
    omega

theorem Saves.nextIndex (h : d.Saves name text d') : d'.nextIndex = d.nextIndex + 1 := by
  rw [Directory.nextIndex, h.indexed, List.getLast?_concat]

theorem Saves.checkpoints (h : d.Saves name text d') :
    d'.checkpoints = d.checkpoints ++ [name] := by
  rw [Directory.checkpoints, h.indexed, List.map_append]
  rfl

theorem Saves.latest? (h : d.Saves name text d') : d'.latest? = some name := by
  rw [Directory.latest?, h.checkpoints, List.getLast?_concat]

theorem Saves.distinct (hd : d.Distinct) (h : d.Saves name text d') : d'.Distinct := by
  rw [Distinct, h.indexed, List.map_append, List.nodup_append]
  refine ⟨hd, List.pairwise_singleton _ _, ?_⟩
  intro a ha b hb
  obtain ⟨e, he, rfl⟩ := List.mem_map.1 ha
  rw [List.mem_singleton.1 hb]
  exact Nat.ne_of_lt (lt_nextIndex he)

theorem Prunes.checkpoints {keep : Nat} (h : d.Prunes keep d') :
    d'.checkpoints = d.checkpoints.drop (d.checkpoints.length - keep) := by
  rw [Directory.checkpoints, h.indexed, Directory.checkpoints, List.length_map, List.map_drop]

theorem Prunes.distinct {keep : Nat} (hd : d.Distinct) (h : d.Prunes keep d') : d'.Distinct := by
  rw [Distinct, h.indexed, List.map_drop]
  exact hd.drop

/-- The newest checkpoint stays, and with it the next number. -/
theorem Prunes.nextIndex {keep : Nat} (hkeep : 1 ≤ keep) (h : d.Prunes keep d') :
    d'.nextIndex = d.nextIndex := by
  have last : d'.indexed.getLast? = d.indexed.getLast? := by
    rw [h.indexed, List.getLast?_drop]
    split
    · next short =>
      have empty : d.indexed = [] := List.length_eq_zero_iff.1 (by omega)
      rw [empty, List.getLast?_nil]
    · rfl
  rw [Directory.nextIndex, last, ← Directory.nextIndex]

end Directory

/-! ## Saves and prunes -/

section Upkeep

variable {σ : Type u} {ο : Type} {m : Model Float σ ο} {d d' : Directory}
  {createdAt name : String} {s : σ} {c : Clock Float} {metadata : Datum Float}

/-- **What a save does**, while there is a next number. -/
theorem saves_of_save (hd : d.Distinct) (room : d.nextIndex < 0x10000000000000000)
    (h : save m d createdAt s c metadata = .ok (name, d')) :
    name = fileName d.nextIndex ∧
      d.Saves name (Record.text ⟨createdAt, c, m.snapshot s, metadata⟩) d' := by
  unfold save at h
  simp only at h
  cases w : d.write (α := Float) (fileName d.nextIndex)
      (Record.text ⟨createdAt, c, m.snapshot s, metadata⟩) with
  | error e =>
    rw [w] at h
    cases h
  | ok written =>
    rw [w] at h
    cases h
    exact ⟨rfl, Directory.saves_of_write hd room w⟩

end Upkeep

/-- Saves and prunes one after another, all of them successful.  Before a save the greatest number
is not in use, and a prune keeps at least one checkpoint. -/
inductive Upkeep : Directory → Directory → Prop where
  | refl (d : Directory) : Upkeep d d
  | save {σ : Type u} {ο : Type} {m : Model Float σ ο} {d d' d'' : Directory}
      {createdAt name : String} {s : σ} {c : Clock Float} {metadata : Datum Float}
      (before : Upkeep d d')
      (room : ∀ name ∈ d'.checkpoints, fileIndex? name ≠ some 0xFFFFFFFFFFFFFFFF)
      (h : save m d' createdAt s c metadata = .ok (name, d'')) : Upkeep d d''
  | prune {d d' : Directory} {keep : Nat} (before : Upkeep d d') (hkeep : 1 ≤ keep) :
      Upkeep d (d'.prune keep).2

section Upkeep

variable {d d' : Directory}

theorem Upkeep.distinct (hd : d.Distinct) (h : Upkeep.{u} d d') : d'.Distinct := by
  induction h with
  | refl => exact hd
  | save before room h ih =>
    exact (saves_of_save (ih hd) (Directory.nextIndex_lt room) h).2.distinct (ih hd)
  | prune before hkeep ih => exact (Directory.prunes_prune (ih hd) _).distinct (ih hd)

/-- A number that has been given to a checkpoint is never given again. -/
theorem Upkeep.nextIndex_le (hd : d.Distinct) (h : Upkeep.{u} d d') :
    d.nextIndex ≤ d'.nextIndex := by
  induction h with
  | refl => exact Nat.le_refl _
  | save before room h ih =>
    rw [(saves_of_save (before.distinct hd) (Directory.nextIndex_lt room) h).2.nextIndex]
    exact Nat.le_succ_of_le (ih hd)
  | prune before hkeep ih =>
    rw [(Directory.prunes_prune (before.distinct hd) _).nextIndex hkeep]
    exact ih hd

/-- What has not the name of a checkpoint is left as it is. -/
theorem Upkeep.at?_eq (hd : d.Distinct) (h : Upkeep.{u} d d') {l : Location}
    (hl : ∀ name i, fileIndex? name = some i → l ≠ [name]) : d'.at? l = d.at? l := by
  induction h with
  | refl => rfl
  | save before room h ih =>
    have room := Directory.nextIndex_lt room
    obtain ⟨rfl, saves⟩ := saves_of_save (before.distinct hd) room h
    rw [saves.elsewhere l (hl _ _ (fileIndex?_fileName room)), ih hd]
  | prune before hkeep ih =>
    refine ((Directory.prunes_prune (before.distinct hd) _).elsewhere l ?_).trans (ih hd)
    intro name hname
    obtain ⟨e, he, rfl⟩ := List.mem_map.1 (List.mem_of_mem_take hname)
    exact hl _ _ (Directory.fileIndex?_of_mem_indexed he)

/-- **The checkpoints of a directory** after any successful saves and prunes.  They are listed by
ascending numbers, no file without the name of a checkpoint was touched, and the next number has
not fallen.  One more save adds one file under a new name, which is then the newest checkpoint, and
one more prune removes the oldest ones but `keep`; neither changes any other file. -/
theorem upkeep_exact (hd : d.Distinct) (h : Upkeep.{u} d d') :
    (∃ indices : List Nat,
      d'.checkpoints.map fileIndex? = indices.map some ∧ indices.Pairwise (· < ·)) ∧
    (∀ l, (∀ cs i, number? cs = some i → l ≠ [nameStart ++ String.ofList cs ++ nameEnd]) →
      d'.at? l = d.at? l) ∧
    d.nextIndex ≤ d'.nextIndex ∧
    (∀ {σ : Type u} {ο : Type} {m : Model Float σ ο} {d'' : Directory} {createdAt name : String}
      {s : σ} {c : Clock Float} {metadata : Datum Float},
      (∀ name ∈ d'.checkpoints, fileIndex? name ≠ some 0xFFFFFFFFFFFFFFFF) →
      save m d' createdAt s c metadata = .ok (name, d'') →
      d'.Saves name (Record.text ⟨createdAt, c, m.snapshot s, metadata⟩) d'' ∧
        d''.checkpoints = d'.checkpoints ++ [name] ∧ d''.latest? = some name) ∧
    (∀ keep, 1 ≤ keep →
      (d'.prune keep).1 = d'.checkpoints.length - keep ∧
      d'.Prunes keep (d'.prune keep).2 ∧
        (d'.prune keep).2.checkpoints = d'.checkpoints.drop (d'.checkpoints.length - keep)) := by
  have distinct := h.distinct hd
  refine ⟨⟨d'.indexed.map Prod.fst, d'.map_fileIndex?_checkpoints, ?_⟩, ?_, h.nextIndex_le hd, ?_,
    ?_⟩
  · exact List.pairwise_map.2 distinct.ascend
  · intro l hl
    refine h.at?_eq hd fun name i hi => ?_
    obtain ⟨cs, rfl, hcs⟩ := fileIndex?_eq_some_iff.1 hi
    exact hl cs i hcs
  · intro σ ο m d'' createdAt name s c metadata room hsave
    have saves := (saves_of_save distinct (Directory.nextIndex_lt room) hsave).2
    exact ⟨saves, saves.checkpoints, saves.latest?⟩
  · intro keep _
    have prunes := Directory.prunes_prune distinct keep
    exact ⟨rfl, prunes, prunes.checkpoints⟩

end Upkeep

/-! ## A folder with other files -/

/-- A note, and two checkpoints with names of other widths. -/
def mixedFolder : Directory :=
  ⟨"checkpoints", some [(["notes.txt"], .file "a note"), (["checkpoint_12.json"], .file "b"),
    (["checkpoint_+00000007.json"], .file "c")]⟩

theorem indexed_mixedFolder : mixedFolder.indexed =
    [(7, "checkpoint_+00000007.json"), (12, "checkpoint_12.json")] := by
  refine Directory.indexed_eq_of_perm (by decide) ?_
  exact List.Perm.swap _ _ _

theorem distinct_mixedFolder : mixedFolder.Distinct := by
  rw [Directory.Distinct, indexed_mixedFolder]
  decide

theorem checkpoints_mixedFolder :
    mixedFolder.checkpoints = ["checkpoint_+00000007.json", "checkpoint_12.json"] := by
  rw [Directory.checkpoints, indexed_mixedFolder]
  rfl

theorem nextIndex_mixedFolder : mixedFolder.nextIndex = 13 := by
  rw [Directory.nextIndex, indexed_mixedFolder]
  rfl

/-- The checkpoint that is saved next, of no blocks. -/
def nextRecord : Record := ⟨"2027-01-15T08:00:00Z", ⟨.simulation, 1.5, none⟩, .empty, .null⟩

/-- The folder with that checkpoint. -/
def savedFolder : Directory :=
  mixedFolder.set ["checkpoint_000013.json"] (.file nextRecord.text)

theorem save_mixedFolder :
    save (Network.model : Model Float (Network Float) (Datum Float)) mixedFolder
        nextRecord.createdAt ⟨[], []⟩ nextRecord.clock nextRecord.metadata =
      .ok ("checkpoint_000013.json", savedFolder) := by
  have name : fileName 13 = "checkpoint_000013.json" := by decide
  have written : mixedFolder.write "checkpoint_000013.json" nextRecord.text =
      (.ok savedFolder : Except (Failure Float) Directory) := by
    rw [Directory.write_of_not_mem _ (by decide)]
    rfl
  unfold save
  rw [nextIndex_mixedFolder, name]
  exact congrArg (Except.map _) written

/-- The note stays, the checkpoint is numbered after 12, and of the three checkpoints the two with
the greatest numbers are kept. -/
theorem upkeep_mixedFolder :
    mixedFolder.Distinct ∧ Upkeep.{1} mixedFolder savedFolder ∧
      savedFolder.at? ["notes.txt"] = some (.file "a note") ∧
      (savedFolder.prune 2).2.checkpoints = ["checkpoint_12.json", "checkpoint_000013.json"] := by
  have room : ∀ name ∈ mixedFolder.checkpoints, fileIndex? name ≠ some 0xFFFFFFFFFFFFFFFF := by
    rw [checkpoints_mixedFolder]
    decide
  have course : Upkeep.{1} mixedFolder savedFolder := .save (.refl _) room save_mixedFolder
  have first := upkeep_exact distinct_mixedFolder (.refl _)
  have second := upkeep_exact distinct_mixedFolder course
  have saved : savedFolder.checkpoints = mixedFolder.checkpoints ++ ["checkpoint_000013.json"] :=
    (first.2.2.2.1 room save_mixedFolder).2.1
  refine ⟨distinct_mixedFolder, course, ?_, ?_⟩
  · rw [second.2.1 ["notes.txt"]]
    · rfl
    · intro cs i hcs same
      have index := fileIndex?_eq_some_iff.2 ⟨cs, rfl, hcs⟩
      have none : fileIndex? "notes.txt" = none := by decide
      rw [← List.singleton_inj.1 same, none] at index
      cases index
  · rw [(second.2.2.2.2 2 (by decide)).2.2, saved, checkpoints_mixedFolder]
    rfl

end ControlBlocks.Checkpoint

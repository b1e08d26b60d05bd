import ControlBlocks.Checkpoint.Store
import ControlBlocks.Proofs.Datum.Sorting
import ControlBlocks.Proofs.Json.Documents

/-!
# Checkpoint files are read back

* `Clock.ofDatum?_toDatum` — a clock is read back from its data;
* `Snapshot.Tidy` — a snapshot of finite, sorted memories that are not too deep;
* `Checkpoint.Record.parse?_text` — a record is read back from the text of its file;
* `Checkpoint.load_of_save` — what was saved is loaded.
-/

set_option autoImplicit false

namespace ControlBlocks

universe u

/-! ## Clocks -/

namespace Clock

/-- The times of a clock are finite. -/
def IsFinite (c : Clock Float) : Prop := (toDatum c : Datum Float).allFinite = true

theorem ofDatum?_toDatum (c : Clock Float) :
    (ofDatum? (toDatum c : Datum Float) : Option (Clock Float)) = some c := by
  obtain ⟨mode, time, step⟩ := c
  cases mode <;> cases step <;> rfl

/-- The shape of a clock takes all of it. -/
theorem covers_toDatum (c : Clock Float) :
    Json.Covers (.fields (fieldNames.map fun n => (n, .whole))) (toDatum c) := by
  refine .fields ?_ ?_
  · intro k d hk
    simp only [List.mem_cons, Prod.mk.injEq, List.not_mem_nil, or_false] at hk
    rcases hk with ⟨rfl, -⟩ | ⟨rfl, -⟩ | ⟨rfl, -⟩ <;> rfl
  · intro k d under hk hu
    simp only [List.mem_cons, Prod.mk.injEq, List.not_mem_nil, or_false] at hk
    rcases hk with ⟨rfl, -⟩ | ⟨rfl, -⟩ | ⟨rfl, -⟩ <;> (cases hu; exact .whole d)

theorem nesting_toDatum_le (c : Clock Float) : (toDatum c : Datum Float).nesting ≤ 126 := by
  obtain ⟨mode, time, step⟩ := c
  cases mode <;> cases step <;> exact Nat.le_add_left 1 125

end Clock

/-! ## Snapshots -/

/-- The memories of the snapshot are such as are kept: in key order, with finite values, and never
so deep that a file of them would not be read. -/
structure Snapshot.Tidy (s : Snapshot Float) : Prop where
  ascend : KeysAscend s.blocks
  sorted : ∀ e ∈ s.blocks, e.2.sorted = e.2
  finite : ∀ e ∈ s.blocks, e.2.allFinite = true
  nesting : ∀ e ∈ s.blocks, e.2.nesting + 2 ≤ Json.maxDepth

theorem Snapshot.Tidy.ofDatum?_toDatum {s : Snapshot Float} (h : s.Tidy) :
    (ofDatum? (toDatum s : Datum Float) : Option (Snapshot Float)) = some s := by
  show some (Snapshot.mk (Datum.sortedFields [] s.blocks)) = some s
  rw [Datum.sortedFields_eq_self h.ascend h.sorted]

namespace Checkpoint

namespace Record

/-- The document that is written to a file. -/
def document (r : Record) : Datum Float :=
  .record [("created_at", .text r.createdAt), ("time", toDatum r.clock),
    ("blocks", toDatum r.blocks), ("metadata", r.metadata.sorted)]

/-- All of the document is read. -/
theorem covers_document (r : Record) : Json.Covers shape r.document := by
  refine .fields ?_ ?_
  · intro k d hk
    simp only [List.mem_cons, Prod.mk.injEq, List.not_mem_nil, or_false] at hk
    rcases hk with ⟨rfl, -⟩ | ⟨rfl, -⟩ | ⟨rfl, -⟩ | ⟨rfl, -⟩ <;> rfl
  · intro k d under hk hu
    simp only [List.mem_cons, Prod.mk.injEq, List.not_mem_nil, or_false] at hk
    rcases hk with ⟨rfl, -⟩ | ⟨rfl, rfl⟩ | ⟨rfl, -⟩ | ⟨rfl, -⟩
    · cases hu
      exact .whole d
    · cases hu
      exact r.clock.covers_toDatum
    · cases hu
      exact .whole d
    · cases hu
      exact .whole d

/-- The record is read from its document. -/
theorem ofDatum?_document (r : Record) (hcreated : (Calendar.Timestamp.parse? r.createdAt).isSome)
    (hblocks : r.blocks.Tidy) :
    ofDatum? r.document = some { r with metadata := r.metadata.sorted } := by
  obtain ⟨stamp, hstamp⟩ := Option.isSome_iff_exists.1 hcreated
  have members : r.document.leadingMembers fieldNames =
      some [some (.text r.createdAt), some (toDatum r.clock), some (toDatum r.blocks),
        some r.metadata.sorted] := rfl
  have created : (required (some (Datum.text r.createdAt : Datum Float)) : Option String) =
      some r.createdAt := rfl
  have clock : (required (some (toDatum r.clock : Datum Float)) : Option (Clock Float)) =
      some r.clock := Clock.ofDatum?_toDatum r.clock
  have blocks : (required (some (toDatum r.blocks : Datum Float)) : Option (Snapshot Float)) =
      some r.blocks := hblocks.ofDatum?_toDatum
  simp only [ofDatum?, members, created, clock, blocks, hstamp, Option.bind_eq_bind,
    Option.bind_some, Option.getD_some, Datum.sorted_sorted, Option.pure_def]

theorem allFinite_document {r : Record} (hclock : r.clock.IsFinite) (hblocks : r.blocks.Tidy)
    (hmeta : r.metadata.allFinite = true) : r.document.allFinite = true := by
  unfold document
  rw [Datum.partwise_allFinite.record]
  intro e he
  simp only [List.mem_cons, List.not_mem_nil, or_false] at he
  rcases he with rfl | rfl | rfl | rfl
  · rfl
  · exact hclock
  · exact (Datum.partwise_allFinite.record _).2 hblocks.finite
  · exact Datum.partwise_allFinite.sorted hmeta

theorem nesting_document_le {r : Record} (hblocks : r.blocks.Tidy)
    (hmeta : r.metadata.nesting + 1 ≤ Json.maxDepth) : r.document.nesting ≤ Json.maxDepth := by
  have deep : Json.maxDepth = 126 + 1 := rfl
  unfold document
  rw [Datum.nesting, deep, Nat.add_le_add_iff_right, Datum.fieldsNesting_le]
  intro e he
  simp only [List.mem_cons, List.not_mem_nil, or_false] at he
  rcases he with rfl | rfl | rfl | rfl
  · exact Nat.zero_le _
  · exact r.clock.nesting_toDatum_le
  · show Datum.fieldsNesting r.blocks.blocks + 1 ≤ 125 + 1
    rw [Nat.add_le_add_iff_right, Datum.fieldsNesting_le]
    intro b hb
    have := hblocks.nesting b hb
    omega
  · have := Datum.nesting_sorted_le r.metadata
    show r.metadata.sorted.nesting ≤ 126
    omega

/-- What a text can give back of a record: a time stamp, metadata without infinite values, integers
of 64 bits, and nothing deeper than texts are read. -/
structure Readable (r : Record) : Prop where
  createdAt : (Calendar.Timestamp.parse? r.createdAt).isSome
  finite : r.metadata.allFinite = true
  nesting : r.metadata.nesting + 1 ≤ Json.maxDepth
  ints : ∀ n ∈ r.document.ints, Json.Has64Bits n

/-- **A record is read back from the text of its file**, its metadata in key order. -/
theorem parse?_text {r : Record} (hr : r.Readable) (hclock : r.clock.IsFinite)
    (hblocks : r.blocks.Tidy) : parse? r.text = some { r with metadata := r.metadata.sorted } := by
  have whole := Datum.stored_eq_self (allFinite_document hclock hblocks hr.finite)
  have read := Json.parseShape?_pretty r.document (whole.symm ▸ covers_document r) hr.ints
    (nesting_document_le hblocks hr.nesting)
  have text : r.text = Json.pretty r.document := rfl
  rw [parse?, text, read, Option.bind_some, whole]
  exact ofDatum?_document r hr.createdAt hblocks

end Record

/-- A checkpoint is in the directory itself. -/
theorem not_mem_fileName (index : Nat) : '/' ∉ (fileName index).toList := by
  simp only [fileName, String.toList_append, String.toList_ofList, List.mem_append, not_or]
  refine ⟨⟨by decide, fun h => ?_⟩, by decide⟩
  exact absurd (isDigit_of_mem_sixPlaces h) (by decide)

/-- **What was saved is loaded**, from any directory with the same file. -/
theorem load_of_save {σ : Type u} {ο : Type} {m : Model Float σ ο} {d d' d₂ : Directory}
    {createdAt file : String} {s : σ} {c : Clock Float} {metadata : Datum Float}
    (hsave : save m d createdAt s c metadata = .ok (file, d'))
    (hfile : (d₂.read file : Except (Failure Float) String) = d'.read file)
    (hr : Record.Readable ⟨createdAt, c, m.snapshot s, metadata⟩) (hclock : c.IsFinite)
    (hblocks : (m.snapshot s).Tidy) :
    load d₂ file = .ok ⟨createdAt, c, m.snapshot s, metadata.sorted⟩ := by
  unfold save at hsave
  simp only at hsave
  cases hwrite : d.write (fileName d.nextIndex)
      (Record.text ⟨createdAt, c, m.snapshot s, metadata⟩) with
  | error e =>
    rw [hwrite] at hsave
    cases hsave
  | ok written =>
    rw [hwrite] at hsave
    cases hsave
    rw [load, hfile, Directory.read_write (not_mem_fileName _) hwrite]
    simp only [Record.parse?_text hr hclock hblocks]

end Checkpoint

end ControlBlocks

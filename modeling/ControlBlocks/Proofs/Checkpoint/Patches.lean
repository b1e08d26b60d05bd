import ControlBlocks.Proofs.Checkpoint.Files

/-!
# Partial restores of a clock

* `Clock.lastOf?` — an entry of the last object that has it;
* `Clock.Takes` — a field is read from an entry, or keeps its value where there is none;
* `Clock.takes_of_patch` — one object; `Clock.takes_of_patches` — one after another;
* `Clock.parseShape?_text` — the data of a clock is read back from its texts;
* `Clock.last_writer_per_field` — what a sequence of partial restores makes of a clock.
-/

set_option autoImplicit false

namespace ControlBlocks.Clock

section Fields

variable {α τ : Type}

/-- What stands under a key, unless that is `null`. -/
def nonNull? (key : String) (fields : List (String × Datum α)) : Option (Datum α) :=
  match fields.lookup key with
  | some .null => none
  | entry => entry

/-- An entry of the last of the objects that has it. -/
def lastOf? (entry : List (String × Datum α) → Option (Datum α))
    (objects : List (List (String × Datum α))) : Option (Datum α) :=
  objects.reverse.findSome? entry

theorem lastOf?_cons (entry : List (String × Datum α) → Option (Datum α))
    (fields : List (String × Datum α)) (objects : List (List (String × Datum α))) :
    lastOf? entry (fields :: objects) = (lastOf? entry objects).or (entry fields) := by
  rw [lastOf?, lastOf?, List.reverse_cons, List.findSome?_append, List.findSome?_singleton]

/-- A field is what is read from an entry; where there is no entry it keeps its value. -/
def Takes [OfDatum α τ] (entry : Option (Datum α)) (prior now : τ) : Prop :=
  match entry with
  | some d => ofDatum? d = some now
  | none => now = prior

/-- The later entry wins. -/
theorem Takes.trans [OfDatum α τ] {entry later : Option (Datum α)} {prior mid now : τ}
    (h : Takes entry prior mid) (h' : Takes later mid now) : Takes (later.or entry) prior now := by
  cases later with
  | some d => exact h'
  | none =>
    obtain rfl : now = mid := h'
    exact h

/-- A field that may be missing: a `null` counts as missing. -/
theorem takes_of_optional [OfDatum α τ] {key : String} {fields : List (String × Datum α)}
    {field : Option τ} (h : optional (fields.lookup key) = some field) (prior : τ) :
    Takes (nonNull? key fields) prior (field.getD prior) := by
  unfold nonNull?
  cases hentry : fields.lookup key with
  | none =>
    rw [hentry] at h
    cases h
    rfl
  | some d =>
    rw [hentry] at h
    cases d with
    | null =>
      cases h
      rfl
    | _ =>
      obtain ⟨v, hv, rfl⟩ := Option.map_eq_some_iff.1 h
      exact hv

/-- A field that may be missing or unset: a `null` unsets it. -/
theorem takes_of_settable [OfDatum α τ] {entry : Option (Datum α)} {field : Option τ}
    (h : (match entry with
      | none => some none
      | some d => (ofDatum? d).map some) = some field) (prior : τ) :
    Takes entry prior (field.getD prior) := by
  cases entry with
  | none =>
    cases h
    rfl
  | some d =>
    obtain ⟨v, hv, rfl⟩ := Option.map_eq_some_iff.1 h
    exact hv

end Fields

section Patches

variable {α : Type} [Scalar α]

/-- The fields of a patch are read from an object one by one. -/
theorem fields_of_patch {fields : List (String × Datum α)} {patch : Patch α}
    (h : ofDatum? (.record fields) = some patch) :
    optional (fields.lookup "mode") = some patch.mode ∧
      optional (fields.lookup "current_time") = some patch.time ∧
      (match fields.lookup "time_step" with
        | none => some none
        | some d => (ofDatum? d).map some) = some patch.step := by
  obtain ⟨members, hmembers, h⟩ := Option.bind_eq_some_iff.1 h
  have found : members = fieldNames.map fun name => fields.lookup name := by
    simp only [Datum.leadingMembers, Datum.members] at hmembers
    split_ifs at hmembers
    exact (Option.some.inj hmembers).symm
  subst found
  -- the step is read first, and then the two others
  have fields_eq : ∃ step, (match fields.lookup "time_step" with
        | none => some none
        | some d => (ofDatum? d).map some) = some step ∧
      ((optional (fields.lookup "mode")).bind fun mode =>
        (optional (fields.lookup "current_time")).bind fun time =>
          some (⟨mode, time, step⟩ : Patch α)) = some patch := by
    simp only [fieldNames, List.map] at h
    cases hstep : fields.lookup "time_step" with
    | none =>
      rw [hstep] at h
      exact ⟨none, rfl, h⟩
    | some d =>
      rw [hstep] at h
      exact Option.bind_eq_some_iff.1 h
  obtain ⟨step, hstep, h⟩ := fields_eq
  obtain ⟨mode, hmode, h⟩ := Option.bind_eq_some_iff.1 h
  obtain ⟨time, htime, h⟩ := Option.bind_eq_some_iff.1 h
  cases h
  exact ⟨hmode, htime, hstep⟩

/-- One object: each field on its own. -/
theorem takes_of_patch {fields : List (String × Datum α)} {patch : Patch α}
    (h : ofDatum? (.record fields) = some patch) (c : Clock α) :
    Takes (nonNull? "mode" fields) c.mode (c.apply patch).mode ∧
      Takes (nonNull? "current_time" fields) c.time (c.apply patch).time ∧
      Takes (fields.lookup "time_step") c.step (c.apply patch).step := by
  obtain ⟨mode, time, step⟩ := fields_of_patch h
  exact ⟨takes_of_optional mode c.mode, takes_of_optional time c.time,
    takes_of_settable step c.step⟩

/-- One object after another: each field on its own, from the last object that says something of
it. -/
theorem takes_of_patches (objects : List (List (String × Datum α))) (patches : List (Patch α))
    (h : objects.mapM (fun fields => ofDatum? (.record fields)) = some patches) (c : Clock α) :
    Takes (lastOf? (nonNull? "mode") objects) c.mode
        (patches.foldl (fun c patch => c.apply patch) c).mode ∧
      Takes (lastOf? (nonNull? "current_time") objects) c.time
        (patches.foldl (fun c patch => c.apply patch) c).time ∧
      Takes (lastOf? (·.lookup "time_step") objects) c.step
        (patches.foldl (fun c patch => c.apply patch) c).step := by
  induction objects generalizing patches c with
  | nil =>
    cases h
    exact ⟨rfl, rfl, rfl⟩
  | cons fields objects ih =>
    rw [List.mapM_cons] at h
    obtain ⟨patch, hpatch, h⟩ := Option.bind_eq_some_iff.1 h
    obtain ⟨later, hlater, h⟩ := Option.bind_eq_some_iff.1 h
    cases h
    obtain ⟨mode, time, step⟩ := takes_of_patch hpatch c
    obtain ⟨mode', time', step'⟩ := ih later hlater (c.apply patch)
    simp only [lastOf?_cons, List.foldl_cons]
    exact ⟨mode.trans mode', time.trans time', step.trans step'⟩

/-- A step that is given as `null` is unset. -/
theorem unset_of_takes {prior now : Option α}
    (h : Takes (some (.null : Datum α)) prior now) : now = none :=
  (Option.some.inj h).symm

end Patches

/-! ## Texts of a clock -/

/-- A clock is read from its data as the patch that sets every field. -/
theorem patch_of_toDatum (c : Clock Float) :
    (ofDatum? (toDatum c : Datum Float) : Option (Patch Float)) = some (.ofClock c) := by
  obtain ⟨mode, time, step⟩ := c
  cases mode <;> cases step <;> rfl

/-- There are no integers in the data of a clock. -/
theorem ints_toDatum (c : Clock Float) : (toDatum c : Datum Float).ints = [] := by
  obtain ⟨mode, time, step⟩ := c
  cases mode <;> cases step <;> rfl

/-- The data of a clock with finite times is read back from either of its texts, as a whole or
field by field. -/
theorem parseShape?_text {c : Clock Float} (hfinite : c.IsFinite) {text : String}
    (htext : text ∈ [Json.compact (toDatum c), Json.pretty (toDatum c)]) {shape : Json.Shape}
    (hshape : shape ∈ [Json.Shape.whole, .fields (fieldNames.map fun n => (n, .whole))]) :
    Json.parseShape? shape text = some (toDatum c) := by
  have whole : (toDatum c : Datum Float).stored = toDatum c := Datum.stored_eq_self hfinite
  have ints : ∀ n ∈ (toDatum c : Datum Float).ints, Json.Has64Bits n := by
    rw [ints_toDatum]
    exact fun _ h => absurd h List.not_mem_nil
  have spells : Json.Spells (toDatum c) text.toList := by
    rw [← whole]
    simp only [List.mem_cons, List.not_mem_nil, or_false] at htext
    rcases htext with rfl | rfl
    · exact Json.spells_compact _ ints
    · exact Json.spells_prettyAt _ 0 ints
  have covers : Json.Covers shape (toDatum c) := by
    simp only [List.mem_cons, List.not_mem_nil, or_false] at hshape
    rcases hshape with rfl | rfl
    · exact .whole _
    · exact c.covers_toDatum
  exact Json.parseShape?_of_spells spells covers (Nat.le_succ_of_le c.nesting_toDatum_le)

/-! ## The last writer of each field -/

/-- **The last writer of each field wins.**  After any sequence of objects that are read as
patches, the mode and the time are those of the last object that has them and not as `null`, and
the step is that of the last object that has it at all, unset where that says `null`; what no
object has stays as it was.  A text of a clock with finite times, read as a whole or field by field
and taken as a clock or as a patch, makes any clock the clock it was written for. -/
theorem last_writer_per_field (c₀ : Clock Float) :
    (∀ (objects : List (List (String × Datum Float))) (patches : List (Patch Float)),
      objects.mapM (fun fields => ofDatum? (.record fields)) = some patches →
      let c := patches.foldl (fun c patch => c.apply patch) c₀
      Takes (lastOf? (nonNull? "mode") objects) c₀.mode c.mode ∧
      Takes (lastOf? (nonNull? "current_time") objects) c₀.time c.time ∧
      Takes (lastOf? (·.lookup "time_step") objects) c₀.step c.step ∧
      (lastOf? (·.lookup "time_step") objects = some .null → c.step = none)) ∧
    ∀ c : Clock Float, c.IsFinite → ∀ text ∈ [Json.compact (toDatum c), Json.pretty (toDatum c)],
      ∀ shape ∈ [Json.Shape.whole, .fields (fieldNames.map fun n => (n, .whole))],
        ∃ d, Json.parseShape? shape text = some d ∧
          ((ofDatum? d : Option (Clock Float)).map fun c' => c₀.apply (.ofClock c')) = some c ∧
          ((ofDatum? d : Option (Patch Float)).map fun patch => c₀.apply patch) = some c := by
  constructor
  case left =>
    intro objects patches h c
    obtain ⟨mode, time, step⟩ := takes_of_patches objects patches h c₀
    refine ⟨mode, time, step, fun hnull => ?_⟩
    rw [hnull] at step
    exact unset_of_takes step
  case right =>
    intro c hfinite text htext shape hshape
    refine ⟨toDatum c, parseShape?_text hfinite htext hshape, ?_, ?_⟩
    · rw [ofDatum?_toDatum]
      rfl
    · rw [patch_of_toDatum]
      rfl

/-- A clock in simulation with a default step is made one in real time without. -/
theorem last_writer_per_field_two :
    let c₀ : Clock Float := ⟨.simulation, 0.5, some 0.1⟩
    let objects : List (List (String × Datum Float)) :=
      [[("mode", .text "realtime"), ("time_step", .null)],
        [("mode", .null), ("current_time", .real 2.5)]]
    let patches : List (Patch Float) := [⟨some .realtime, none, some none⟩, ⟨none, some 2.5, none⟩]
    let c := patches.foldl (fun c patch => c.apply patch) c₀
    objects.mapM (fun fields => ofDatum? (.record fields)) = some patches ∧
      c.mode = .realtime ∧ c.time = 2.5 ∧ c.step = none ∧ c.IsFinite ∧
      ∃ d, Json.parse? (Json.compact (toDatum c)) = some d ∧
        ((ofDatum? d : Option (Patch Float)).map fun patch => c₀.apply patch) = some c := by
  intro c₀ objects patches c
  have read : objects.mapM (fun fields => ofDatum? (.record fields)) = some patches := rfl
  have finite : c.IsFinite := show (toDatum c : Datum Float).allFinite = true by decide +kernel
  obtain ⟨sequences, texts⟩ := last_writer_per_field c₀
  obtain ⟨mode, time, -, step⟩ := sequences objects patches read
  obtain ⟨d, hd, -, hpatch⟩ := texts c finite _ List.mem_cons_self _ List.mem_cons_self
  exact ⟨read, (Option.some.inj mode).symm, (Option.some.inj time).symm, step rfl, finite, d, hd,
    hpatch⟩

end ControlBlocks.Clock

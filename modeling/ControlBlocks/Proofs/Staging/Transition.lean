import ControlBlocks.Proofs.Calls.Repetition
import ControlBlocks.Proofs.Staging.Basic
import Mathlib.Data.List.Chain

/-!
# When a stage changes

What an evaluation may do to a stage, after any evaluations and resets at times that do not
decrease.

* `Event`, `History` — what has happened to a stage, and the times from which it is held;
* `Transition` — what one evaluation may do to a stage;
* `Timely` — the invariant: the stage is in range and held from the latest of those times;
* `transition_law` — every evaluation after any history is such a transition.
-/

set_option autoImplicit false

namespace ControlBlocks.Stage

variable {p : Settings Rat} {s : State Rat} {now u : Rat} {marks : List Rat}

/-- What happens to a stage. -/
inductive Event where
  | call (c : Call Rat Rat)
  | reset (time : Rat)

def Event.time : Event → Rat
  | .call c => c.time
  | .reset t => t

/-- `History b began events s marks`: built at the time `began`, the block comes through the events
to the memory `s`.  The marks are the times at which it was built, reset or changed its stage. -/
inductive History (b : Block Rat Rat (State Rat) Int) (began : Rat) :
    List Event → State Rat → List Rat → Prop where
  | built : History b began [] (b.start (some began)) [began]
  /-- An evaluation that gives the stage that there was. -/
  | still {events : List Event} {s s' : State Rat} {marks : List Rat} {c : Call Rat Rat}
      (before : History b began events s marks) (h : b.call c s = .ok (s.y, s')) :
      History b began (events ++ [.call c]) s' marks
  /-- An evaluation that gives another stage. -/
  | changed {events : List Event} {s s' : State Rat} {marks : List Rat} {c : Call Rat Rat}
      {y : Int} (before : History b began events s marks) (h : b.call c s = .ok (y, s'))
      (hy : y ≠ s.y) : History b began (events ++ [.call c]) s' (c.time :: marks)
  | reset {events : List Event} {s : State Rat} {marks : List Rat}
      (before : History b began events s marks) (time : Rat) :
      History b began (events ++ [.reset time]) (b.start (some time)) (time :: marks)

/-- What an evaluation on the demand `u` may do to a stage that is held from the times `marks`. -/
structure Transition (p : Settings Rat) (marks : List Rat) (now u : Rat) (before after : Int) :
    Prop where
  range : 0 ≤ after ∧ after ≤ p.count
  /-- A change waits until the hold is over. -/
  held : after ≠ before → ∀ t ∈ marks, t + p.hold ≤ now
  /-- A rise crosses the threshold above by the band. -/
  rise : before < after → (before : Rat) / p.count + p.band < u ∧ after = rawStage p.count u
  /-- A fall crosses the threshold below by the band, or comes of a demand for nothing. -/
  fall : after < before →
    u ≤ max ((before - 1 : Int) / p.count - p.band) 0 ∧ after = rawStage p.count u
  /-- Where the hold is over, the new stage is one that the demand would leave alone. -/
  settled : (∀ t ∈ marks, t + p.hold ≤ now) →
    (after = p.count ∨ u ≤ (after : Rat) / p.count + p.band) ∧
      (after = 0 ∨ max ((after - 1 : Int) / p.count - p.band) 0 < u)

/-- The stage is in range, and held from the latest of the marks. -/
structure Timely (p : Settings Rat) (s : State Rat) (marks : List Rat) : Prop where
  range : 0 ≤ s.y ∧ s.y ≤ p.count
  hold : ∃ latest, IsGreatest {t | t ∈ marks} latest ∧ s.changeFrom = some (latest + p.hold)

/-- The hold is over just if it is over from every mark. -/
theorem Timely.mayChange_iff (h : Timely p s marks) :
    mayChange now s = true ↔ ∀ t ∈ marks, t + p.hold ≤ now := by
  obtain ⟨latest, ⟨hmem, hmax⟩, hfrom⟩ := h.hold
  have late : mayChange now s = true ↔ latest + p.hold ≤ now := by
    unfold mayChange
    rw [hfrom]
    exact decide_eq_true_iff
  rw [late]
  constructor
  · intro hover t ht
    have : t ≤ latest := hmax ht
    linarith
  · intro hover
    exact hover latest hmem

/-- A block that is built or reset is held from that time. -/
theorem timely_initial (hp : p.Sound) (hlate : ∀ t ∈ marks, t ≤ now) :
    Timely p (initial p (some now)) (now :: marks) where
  range := hp.start
  hold := by
    refine ⟨now, ⟨List.mem_cons_self, ?_⟩, rfl⟩
    intro t ht
    rcases List.mem_cons.1 ht with rfl | ht
    · exact le_rfl
    · exact hlate t ht

/-- An evaluation that gives the stage that there was changes nothing. -/
theorem eq_of_still {s' : State Rat} (h : step p now s u = (s.y, s')) : s' = s := by
  rcases step_cases p now s u with still | moved
  · rw [still] at h
    exact (Prod.mk.inj h).2.symm
  · have hraw : rawStage p.count u = s.y := by
      rw [moved] at h
      exact (Prod.mk.inj h).1
    rw [step_of_eq_rawStage hraw.symm now] at h
    exact (Prod.mk.inj h).2.symm

/-- An evaluation that gives another stage holds it from then on. -/
theorem Timely.changed {y : Int} {s' : State Rat} (hp : p.Sound) (hlate : ∀ t ∈ marks, t ≤ now)
    (h : step p now s u = (y, s')) (hy : y ≠ s.y) : Timely p s' (now :: marks) := by
  rcases step_cases p now s u with still | moved
  · rw [still] at h
    exact absurd (Prod.mk.inj h).1.symm hy
  · rw [moved] at h
    obtain ⟨-, rfl⟩ := Prod.mk.inj h
    exact {
      range := ⟨rawStage_nonneg p.count u, rawStage_le hp.count u⟩
      hold := (timely_initial hp hlate).hold }

/-- What an evaluation does to a stage that is held from the marks. -/
theorem Timely.transition (hp : p.Sound) (h : Timely p s marks) :
    Transition p marks now u s.y (Stage.step p now s u).1 := by
  by_cases hchange : mayChange now s = true ∧ (wantsUp p s.y u = true ∨ wantsDown p s.y u = true)
  · obtain ⟨hmay, hwants⟩ := hchange
    rw [step_of_wants hp h.range.1 hmay hwants]
    refine ⟨⟨rawStage_nonneg _ u, rawStage_le hp.count u⟩, ?held, ?rise, ?fall, ?settled⟩
    case held =>
      intro _
      exact h.mayChange_iff.1 hmay
    case rise =>
      intro hrise
      rcases hwants with hup | hdown
      · exact ⟨(wantsUp_iff.1 hup).2, rfl⟩
      · exact absurd hrise (rawStage_lt_of_wantsDown hp hdown).asymm
    case fall =>
      intro hfall
      rcases hwants with hup | hdown
      · exact absurd hfall (lt_rawStage_of_wantsUp hp h.range.1 hup).asymm
      · exact ⟨(wantsDown_iff.1 hdown).2, rfl⟩
    case settled =>
      intro _
      exact ⟨le_of_wantsUp_eq_false (rawStage_le hp.count u) (wantsUp_rawStage hp u),
        lt_of_wantsDown_eq_false (rawStage_nonneg _ u) (wantsDown_rawStage hp u)⟩
  · rw [step_of_not hchange]
    refine ⟨h.range, ?held, ?rise, ?fall, ?settled⟩
    case held =>
      intro hother
      exact absurd rfl hother
    case rise =>
      intro hrise
      exact absurd hrise (lt_irrefl _)
    case fall =>
      intro hfall
      exact absurd hfall (lt_irrefl _)
    case settled =>
      intro hover
      have still := not_and.1 hchange (h.mayChange_iff.2 hover)
      rw [not_or, Bool.not_eq_true, Bool.not_eq_true] at still
      exact ⟨le_of_wantsUp_eq_false h.range.2 still.1, lt_of_wantsDown_eq_false h.range.1 still.2⟩

/-- The stage that an evaluation gives is the one that it remembers. -/
theorem y_step (p : Settings Rat) (now : Rat) (s : State Rat) (u : Rat) :
    (step p now s u).2.y = (step p now s u).1 := by
  rcases step_cases p now s u with still | moved
  · rw [still]
  · rw [moved]

/-! ## Histories -/

section History

variable {b : Block Rat Rat (State Rat) Int} {began : Rat} {events : List Event}

theorem mem_times_append_iff {event : Event} {t : Rat} :
    t ∈ began :: (events ++ [event]).map Event.time ↔
      t ∈ began :: events.map Event.time ∨ t = event.time := by
  simp [or_assoc]

/-- The marks are times of events, or that of the start. -/
theorem History.mem_of_mem_marks (h : History b began events s marks) {t : Rat}
    (ht : t ∈ marks) : t ∈ began :: events.map Event.time := by
  induction h with
  | built => simpa using ht
  | still _ _ ih => exact mem_times_append_iff.2 (.inl (ih ht))
  | changed _ _ _ ih =>
    rcases List.mem_cons.1 ht with now | earlier
    · exact mem_times_append_iff.2 (.inr now)
    · exact mem_times_append_iff.2 (.inl (ih earlier))
  | reset _ _ ih =>
    rcases List.mem_cons.1 ht with now | earlier
    · exact mem_times_append_iff.2 (.inr now)
    · exact mem_times_append_iff.2 (.inl (ih earlier))

/-- No mark lies after the next event. -/
theorem History.le_of_mem_marks (h : History b began events s marks)
    (hascend : (began :: events.map Event.time ++ [now]).IsChain (· ≤ ·)) :
    ∀ t ∈ marks, t ≤ now := by
  intro t ht
  have pairs := List.isChain_iff_pairwise.1 hascend
  exact (List.pairwise_append.1 pairs).2.2 t (h.mem_of_mem_marks ht) now List.mem_cons_self

/-- No event fails. -/
theorem exists_history (p : Settings Rat) (began : Rat) (events : List Event) :
    ∃ s marks, History (ofSettings p) began events s marks := by
  induction events using List.reverseRecOn with
  | nil => exact ⟨_, _, .built⟩
  | append_singleton events event ih =>
    obtain ⟨s, marks, before⟩ := ih
    cases event with
    | call c =>
      obtain ⟨y, s', hcall⟩ : ∃ y s', (ofSettings p).call c s = .ok (y, s') :=
        ⟨_, _, ofSettings_stepsAs p c s⟩
      by_cases hy : y = s.y
      · subst hy
        exact ⟨_, _, .still before hcall⟩
      · exact ⟨_, _, .changed before hcall hy⟩
    | reset time => exact ⟨_, _, .reset before time⟩

/-- After events at times that do not decrease, the stage is held from the latest mark. -/
theorem History.timely (hp : p.Sound) (h : History (ofSettings p) began events s marks)
    (hascend : (began :: events.map Event.time).IsChain (· ≤ ·)) : Timely p s marks := by
  induction h with
  | built => exact timely_initial hp (List.forall_mem_nil _)
  | @still events s s' marks c before hcall ih =>
    rw [List.map_append, ← List.cons_append] at hascend
    rw [ofSettings_stepsAs, Except.ok.injEq] at hcall
    rw [eq_of_still hcall]
    exact ih hascend.left_of_append
  | @changed events s s' marks c y before hcall hy ih =>
    rw [List.map_append, ← List.cons_append] at hascend
    rw [ofSettings_stepsAs, Except.ok.injEq] at hcall
    exact Timely.changed hp (before.le_of_mem_marks hascend) hcall hy
  | @reset events s marks before time ih =>
    rw [List.map_append, ← List.cons_append] at hascend
    exact timely_initial hp (before.le_of_mem_marks hascend)

end History

/-- **Every evaluation is a lawful transition.**  After any evaluations and resets at times that do
not decrease, the stage is in range; the next evaluation gives a stage, remembers it, and changes
it only as a `Transition` may. -/
theorem transition_law {c : Config Rat} {b : Block Rat Rat (State Rat) Int} (hb : block c = .ok b)
    (began : Rat) (events : List Event) (now u : Rat)
    (hascend : (began :: events.map Event.time ++ [now]).IsChain (· ≤ ·)) :
    (∃ s marks, History b began events s marks) ∧
      ∀ s marks, History b began events s marks → (0 ≤ s.y ∧ s.y ≤ c.count) ∧
        ∃ y s', b.call ⟨now, u⟩ s = .ok (y, s') ∧ s'.y = y ∧
          Transition c.settings marks now u s.y y := by
  obtain ⟨p, hc, rfl⟩ := block_eq_ok_iff.1 hb
  obtain ⟨rfl, hp⟩ := Config.sound_settings hc
  refine ⟨exists_history c.settings began events, ?_⟩
  intro s marks h
  have timely := h.timely hp hascend.left_of_append
  exact ⟨timely.range, _, _, ofSettings_stepsAs c.settings ⟨now, u⟩ s,
    y_step c.settings now s u, timely.transition hp⟩

/-- A rise by two stages after a reset, a demand for nothing that comes too early, and a fall. -/
theorem transition_after_reset :
    ∃ b : Block Rat Rat (State Rat) Int, block ⟨4, 5, some (1 / 20), 0⟩ = .ok b ∧
      History b 0 [.reset 1, .call ⟨6, 3 / 10⟩, .call ⟨8, 0⟩] ⟨2, some 11⟩ [6, 1, 0] ∧
      ∃ s', b.call ⟨11, 19 / 100⟩ ⟨2, some 11⟩ = .ok (1, s') ∧
        Transition ⟨4, 5, 1 / 20, 0⟩ [6, 1, 0] 11 (19 / 100) 2 1 := by
  let p : Settings Rat := ⟨4, 5, 1 / 20, 0⟩
  have hb : block ⟨4, 5, some (1 / 20), 0⟩ = .ok (ofSettings p) := by with_unfolding_all rfl
  have rise : step p 6 (initial p (some 1)) (3 / 10) = (2, ⟨2, some 11⟩) := by decide +kernel
  have early : step p 8 ⟨2, some 11⟩ 0 = (2, ⟨2, some 11⟩) := by decide +kernel
  have fall : step p 11 ⟨2, some 11⟩ (19 / 100) = (1, ⟨1, some 16⟩) := by decide +kernel
  have afterReset : History (ofSettings p) 0 [.reset 1] (initial p (some 1)) [1, 0] :=
    .reset .built 1
  have afterRise : History (ofSettings p) 0 [.reset 1, .call ⟨6, 3 / 10⟩] ⟨2, some 11⟩
      [6, 1, 0] := .changed afterReset (congrArg Except.ok rise) (by decide)
  have history : History (ofSettings p) 0 [.reset 1, .call ⟨6, 3 / 10⟩, .call ⟨8, 0⟩]
      ⟨2, some 11⟩ [6, 1, 0] := .still afterRise (congrArg Except.ok early)
  obtain ⟨-, y, s', hcall, -, transition⟩ :=
    (transition_law hb 0 _ 11 (19 / 100) (by decide +kernel)).2 _ _ history
  have output : (1, ⟨1, some 16⟩) = (y, s') := by
    rw [← fall]
    exact Except.ok.inj hcall
  cases output
  exact ⟨_, hb, history, _, hcall, transition⟩

end ControlBlocks.Stage

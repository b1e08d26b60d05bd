import ControlBlocks.Proofs.Staging.Transition
import Mathlib.Data.Rat.Floor

/-!
# Stages without band and hold

Without band and hold a stage has no memory: it is the one that the demand asks for, in exact
arithmetic.

* `rawStage_eq_ceil` — the stage that a demand asks for, as the demand rounded up to whole stages;
* `wantsUp_iff_lt_rawStage`, `wantsDown_iff_rawStage_lt` — without band, the tests against the two
  thresholds next to a stage tell on which side of it the demand lies;
* `fst_step_of_no_band` — so one evaluation moves any stage to the one that the demand asks for;
* `tracks_demand` — after any evaluations and resets at times that do not decrease, so does the
  next one.
-/

set_option autoImplicit false

namespace ControlBlocks.Stage

variable {n y : Int} {u now : Rat} {p : Settings Rat} {s : State Rat}

/-! ## Rounding up -/

/-- The thresholds below a demand are as many as the stages that it fills or begins. -/
theorem rawStage_eq_ceil (hn : 0 < n) (u : Rat) : rawStage n u = min n (max 0 ⌈n * u⌉) := by
  have positive : (0 : Rat) < n := by exact_mod_cast hn
  refine eq_of_forall_lt_iff fun k => ?_
  rw [lt_min_iff, lt_max_iff, Int.lt_ceil]
  rcases lt_or_ge k 0 with below | hk
  · have := rawStage_nonneg n u
    exact ⟨fun _ => ⟨by omega, .inl below⟩, fun _ => by omega⟩
  · have crosses : (threshold n k : Rat) < u ↔ (k : Rat) < n * u := div_lt_iff₀' positive
    rw [lt_rawStage_iff hn hk, crosses, or_iff_right (not_lt.2 hk)]

/-! ## One evaluation -/

theorem wantsUp_iff_lt_rawStage (hp : p.Sound) (hband : p.band = 0) (hy : 0 ≤ y) :
    wantsUp p y u = true ↔ y < rawStage p.count u := by
  refine ⟨lt_rawStage_of_wantsUp hp hy, fun h => ?_⟩
  obtain ⟨hcount, above⟩ := (lt_rawStage_iff hp.count hy).1 h
  refine wantsUp_iff.2 ⟨hcount, ?_⟩
  rw [hband, add_zero]
  exact above

/-- No threshold is negative, so without band the floor of the test at zero is of no account. -/
theorem wantsDown_iff_rawStage_lt (hp : p.Sound) (hband : p.band = 0) (hy : y ≤ p.count) :
    wantsDown p y u = true ↔ rawStage p.count u < y := by
  refine ⟨rawStage_lt_of_wantsDown hp, fun h => ?_⟩
  have positive : 0 < y := (rawStage_nonneg p.count u).trans_lt h
  have below : ¬ y - 1 < rawStage p.count u := by omega
  rw [lt_rawStage_iff hp.count (by omega)] at below
  have reached : u ≤ threshold p.count (y - 1) := not_lt.1 fun above => below ⟨by omega, above⟩
  refine wantsDown_iff.2 ⟨positive, le_max_of_le_left ?_⟩
  rw [hband, sub_zero]
  exact reached

/-- Without band, and where no hold is on, the stage becomes the one that the demand asks for. -/
theorem fst_step_of_no_band (hp : p.Sound) (hband : p.band = 0) (hy : 0 ≤ s.y ∧ s.y ≤ p.count)
    (hmay : mayChange now s = true) : (step p now s u).1 = rawStage p.count u := by
  rcases lt_trichotomy s.y (rawStage p.count u) with higher | same | lower
  · have up := (wantsUp_iff_lt_rawStage hp hband hy.1).2 higher
    rw [step_of_wants hp hy.1 hmay (.inl up)]
  · rw [step_of_eq_rawStage same]
    exact same
  · have down := (wantsDown_iff_rawStage_lt hp hband hy.2).2 lower
    rw [step_of_wants hp hy.1 hmay (.inr down)]

/-! ## Any history -/

/-- A hold that takes no time is always over. -/
theorem Timely.mayChange_of_no_hold {marks : List Rat} (h : Timely p s marks) (hhold : p.hold = 0)
    (hlate : ∀ t ∈ marks, t ≤ now) : mayChange now s = true := by
  refine h.mayChange_iff.2 fun t ht => ?_
  rw [hhold, add_zero]
  exact hlate t ht

/-- **Without band and hold a stage has no memory.**  The stage that a demand asks for is the
demand rounded up to whole stages, within the stages that there are.  A block without band and
hold can be built with any stage at the start; after any evaluations and resets at times that do
not decrease, the next evaluation gives just that stage. -/
theorem tracks_demand {n : Int} (hn : 1 ≤ n) :
    (∀ u : Rat, rawStage n u = min n (max 0 ⌈n * u⌉)) ∧
      ∀ start, 0 ≤ start → start ≤ n →
        ∃ b : Block Rat Rat (State Rat) Int, block ⟨n, 0, some 0, start⟩ = .ok b ∧
          ∀ (began : Rat) (events : List Event) (now u : Rat),
            (began :: events.map Event.time ++ [now]).IsChain (· ≤ ·) →
              (∃ s marks, History b began events s marks) ∧
                ∀ s marks, History b began events s marks →
                  ∃ s', b.call ⟨now, u⟩ s = .ok (rawStage n u, s') := by
  refine ⟨rawStage_eq_ceil hn, fun start hlow hhigh => ?_⟩
  let c : Config Rat := ⟨n, 0, some 0, start⟩
  have accepted : c.check = .ok c.settings :=
    Config.check_eq_ok_iff.2 ⟨⟨hn, hlow, hhigh, le_rfl, le_rfl⟩, rfl⟩
  obtain ⟨-, hp⟩ := Config.sound_settings accepted
  refine ⟨ofSettings c.settings, block_eq_ok_iff.2 ⟨_, accepted, rfl⟩, ?_⟩
  intro began events now u hascend
  refine ⟨exists_history c.settings began events, fun s marks h => ?_⟩
  have timely := h.timely hp hascend.left_of_append
  have free := timely.mayChange_of_no_hold rfl (h.le_of_mem_marks hascend)
  have output : (step c.settings now s u).1 = rawStage n u :=
    fst_step_of_no_band hp rfl timely.range free
  refine ⟨(step c.settings now s u).2, ?_⟩
  rw [← output]
  exact ofSettings_stepsAs c.settings ⟨now, u⟩ s

/-- Four stages, begun at the third: a demand above one, a reset and a demand below zero, and at the
same time one that lies on a threshold. -/
theorem tracks_demand_tie :
    ∃ b : Block Rat Rat (State Rat) Int, block ⟨4, 0, some 0, 3⟩ = .ok b ∧
      ∃ s marks, History b 0 [.call ⟨1, 3 / 2⟩, .reset 2, .call ⟨2, -1⟩] s marks ∧
        ∃ s', b.call ⟨2, 1 / 2⟩ s = .ok (2, s') := by
  obtain ⟨b, hb, outputs⟩ := (tracks_demand (n := 4) (by decide)).2 3 (by decide) (by decide)
  obtain ⟨⟨s, marks, history⟩, tracks⟩ :=
    outputs 0 [.call ⟨1, 3 / 2⟩, .reset 2, .call ⟨2, -1⟩] 2 (1 / 2) (by decide +kernel)
  have middle : rawStage 4 (1 / 2 : Rat) = 2 := by decide +kernel
  rw [← middle]
  exact ⟨b, hb, s, marks, history, tracks s marks history⟩

end ControlBlocks.Stage

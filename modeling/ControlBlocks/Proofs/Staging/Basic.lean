import ControlBlocks.Proofs.Block.Built
import ControlBlocks.Proofs.Exact.Scalar

/-!
# Thresholds and stages

What a demand asks for, in exact arithmetic.

* `lt_rawStage_iff` — a demand reaches just the stages whose thresholds lie below it;
* `lt_rawStage_of_wantsUp`, `rawStage_lt_of_wantsDown` — a demand that crosses a threshold by the
  band asks for another stage;
* `wantsUp_rawStage`, `wantsDown_rawStage` — at the stage that it asks for it crosses none;
* `step_of_wants`, `step_of_not` — the two kinds of evaluations.
-/

set_option autoImplicit false

namespace ControlBlocks.Stage

variable {n k y : Int} {u now : Rat} {p : Settings Rat} {s : State Rat}

/-! ## The stage without band and hold -/

/-- Counted from zero on, a test that fails for good once it fails passes up to its count. -/
theorem lt_countP_range_iff {test : ℕ → Bool} (h : ∀ i j, i ≤ j → test j = true → test i = true)
    (n k : ℕ) : k < (List.range n).countP test ↔ k < n ∧ test k = true := by
  induction n with
  | zero => simp
  | succ n ih =>
    rw [List.range_succ, List.countP_append, List.countP_singleton]
    by_cases hn : test n = true
    · have all : (List.range n).countP test = n := by
        rw [List.countP_eq_length.2 fun i hi => h i n (List.mem_range.1 hi).le hn]
        exact List.length_range
      rw [if_pos hn, all]
      exact ⟨fun hk => ⟨hk, h k n (by omega) hn⟩, And.left⟩
    · rw [if_neg hn, Nat.add_zero, ih]
      constructor
      · rintro ⟨hk, htest⟩
        exact ⟨by omega, htest⟩
      · rintro ⟨hk, htest⟩
        have : k ≠ n := by
          rintro rfl
          exact hn htest
        exact ⟨by omega, htest⟩

theorem threshold_mono (hn : 0 < n) {j k : Int} (h : j ≤ k) :
    (threshold n j : Rat) ≤ threshold n k := by
  have hn : (0 : Rat) < n := by exact_mod_cast hn
  have h : (j : Rat) ≤ k := by exact_mod_cast h
  exact (div_le_div_iff_of_pos_right hn).2 h

theorem threshold_nonneg (hn : 0 < n) (hk : 0 ≤ k) : 0 ≤ (threshold n k : Rat) := by
  have hn : (0 : Rat) < n := by exact_mod_cast hn
  have hk : (0 : Rat) ≤ k := by exact_mod_cast hk
  exact div_nonneg hk hn.le

/-- A demand is above stage `k` just if it is above the threshold over `k`. -/
theorem lt_rawStage_iff (hn : 0 < n) (hk : 0 ≤ k) :
    k < rawStage n u ↔ k < n ∧ threshold n k < u := by
  have falls : ∀ i j : ℕ, i ≤ j → decide (threshold n j < u) = true →
      decide (threshold n i < u) = true := by
    intro i j hij hj
    have hj := of_decide_eq_true hj
    exact decide_eq_true ((threshold_mono hn (by exact_mod_cast hij)).trans_lt hj)
  obtain ⟨m, rfl⟩ := Int.eq_ofNat_of_zero_le hk
  have count := lt_countP_range_iff falls n.toNat m
  rw [decide_eq_true_iff] at count
  unfold rawStage
  rw [Int.ofNat_lt, count]
  refine and_congr_left fun _ => ?_
  omega

theorem rawStage_nonneg (n : Int) (u : Rat) : 0 ≤ rawStage n u := Int.natCast_nonneg _

theorem rawStage_le (hn : 0 < n) (u : Rat) : rawStage n u ≤ n := by
  by_contra h
  have := (lt_rawStage_iff hn hn.le).1 (not_le.1 h)
  exact lt_irrefl n this.1

/-! ## What a demand asks for -/

/-- Settings of parameters that are accepted. -/
structure Settings.Sound (p : Settings Rat) : Prop where
  count : 0 < p.count
  start : 0 ≤ p.start ∧ p.start ≤ p.count
  band : 0 ≤ p.band

theorem Config.sound_settings {c : Config Rat} (h : c.check = .ok p) :
    c.settings = p ∧ p.Sound := by
  obtain ⟨⟨hcount, hlow, hhigh, -, hband⟩, rfl⟩ := Config.check_eq_ok_iff.1 h
  exact ⟨rfl, hcount, ⟨hlow, hhigh⟩, hband⟩

theorem wantsUp_iff :
    wantsUp p y u = true ↔ y < p.count ∧ (y : Rat) / p.count + p.band < u := by
  unfold wantsUp
  rw [Bool.and_eq_true, decide_eq_true_iff, decide_eq_true_iff]
  rfl

theorem wantsDown_iff :
    wantsDown p y u = true ↔ 0 < y ∧ u ≤ max ((y - 1 : Int) / p.count - p.band) 0 := by
  unfold wantsDown
  rw [Bool.and_eq_true, decide_eq_true_iff, decide_eq_true_iff, Scalar.larger_eq_max]
  rfl

theorem lt_rawStage_of_wantsUp (hp : p.Sound) (hy : 0 ≤ y) (h : wantsUp p y u = true) :
    y < rawStage p.count u := by
  obtain ⟨hcount, hu⟩ := wantsUp_iff.1 h
  have hband := hp.band
  refine (lt_rawStage_iff hp.count hy).2 ⟨hcount, ?_⟩
  calc threshold p.count y = (y : Rat) / p.count := rfl
    _ < u := by linarith

/-- The threshold below a stage is not negative, so a demand that crosses it downwards by the band,
or reaches zero, does not reach the stage. -/
theorem rawStage_lt_of_wantsDown (hp : p.Sound) (h : wantsDown p y u = true) :
    rawStage p.count u < y := by
  obtain ⟨hy, hu⟩ := wantsDown_iff.1 h
  have below : 0 ≤ y - 1 := by omega
  have hband := hp.band
  have positive := threshold_nonneg hp.count below
  by_contra hraw
  have above := ((lt_rawStage_iff (u := u) hp.count below).1 (by omega)).2
  rcases le_max_iff.1 hu with hlow | hzero
  · have : u ≤ threshold p.count (y - 1) - p.band := hlow
    linarith
  · linarith

/-- At the stage that a demand asks for it asks for no higher one. -/
theorem wantsUp_rawStage (hp : p.Sound) (u : Rat) : wantsUp p (rawStage p.count u) u = false := by
  refine Bool.eq_false_iff.2 fun h => ?_
  have := lt_rawStage_of_wantsUp hp (rawStage_nonneg p.count u) h
  exact lt_irrefl _ this

/-- At the stage that a demand asks for it asks for no lower one. -/
theorem wantsDown_rawStage (hp : p.Sound) (u : Rat) :
    wantsDown p (rawStage p.count u) u = false := by
  refine Bool.eq_false_iff.2 fun h => ?_
  have := rawStage_lt_of_wantsDown hp h
  exact lt_irrefl _ this

theorem rawStage_ne_of_wants (hp : p.Sound) (hy : 0 ≤ y)
    (h : wantsUp p y u = true ∨ wantsDown p y u = true) : rawStage p.count u ≠ y := by
  rcases h with hup | hdown
  · exact (lt_rawStage_of_wantsUp hp hy hup).ne'
  · exact (rawStage_lt_of_wantsDown hp hdown).ne

/-- A demand that asks for no higher stage is below the threshold above, or there is none. -/
theorem le_of_wantsUp_eq_false (hy : y ≤ p.count) (h : wantsUp p y u = false) :
    y = p.count ∨ u ≤ (y : Rat) / p.count + p.band := by
  have h := mt wantsUp_iff.2 (Bool.eq_false_iff.1 h)
  by_cases hlast : y = p.count
  · exact .inl hlast
  · refine .inr (not_lt.1 fun hu => h ⟨?_, hu⟩)
    omega

/-- A demand that asks for no lower stage is above the threshold below, or there is none. -/
theorem lt_of_wantsDown_eq_false (hy : 0 ≤ y) (h : wantsDown p y u = false) :
    y = 0 ∨ max ((y - 1 : Int) / p.count - p.band) 0 < u := by
  have h := mt wantsDown_iff.2 (Bool.eq_false_iff.1 h)
  by_cases hfirst : y = 0
  · exact .inl hfirst
  · refine .inr (not_le.1 fun hu => h ⟨?_, hu⟩)
    omega

/-! ## One evaluation -/

/-- Where the hold is over and the demand has crossed a threshold, the stage becomes the one that
it asks for. -/
theorem step_of_wants (hp : p.Sound) (hy : 0 ≤ s.y) (hmay : mayChange now s = true)
    (h : wantsUp p s.y u = true ∨ wantsDown p s.y u = true) :
    step p now s u = (rawStage p.count u, ⟨rawStage p.count u, some (now + p.hold)⟩) := by
  have other := rawStage_ne_of_wants hp hy h
  have wants : (wantsUp p s.y u || wantsDown p s.y u) = true := by simpa using h
  simp only [step, hmay, wants, Bool.and_self, if_true, if_pos other]

/-- Otherwise the stage is left alone. -/
theorem step_of_not
    (h : ¬ (mayChange now s = true ∧ (wantsUp p s.y u = true ∨ wantsDown p s.y u = true))) :
    step p now s u = (s.y, s) := by
  have still : ¬ (mayChange now s && (wantsUp p s.y u || wantsDown p s.y u)) = true := by
    simpa using h
  rw [step, if_neg still]

end ControlBlocks.Stage

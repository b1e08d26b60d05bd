import ControlBlocks.Proofs.Controller.Basic
import Mathlib.Data.Finset.Max
import Mathlib.Order.Interval.Finset.Nat
import Mathlib.Tactic.GCongr
import Mathlib.Tactic.Ring

/-!
# The filter of the derivative

How the filtered slope of a controller follows the slopes of its error, in exact arithmetic.

* `Config.share` — the part of the way that a call takes the filtered slope; `Config.share_pos`,
  `share_lt_one` — it is never all of it;
* `Config.quotient` — the slope of the error from one call to the next, and `Config.seen`, those so
  far where time has gone by;
* `slope_memoryAt_sub` — the distance to the slope of the error shrinks in proportion;
* `slope_memoryAt_mem` — the filtered slope stays among those so far;
* `never_overshoots` — the same of the block.
-/

set_option autoImplicit false

namespace ControlBlocks.Pid

variable {c : Config Rat} {s : State Rat} {calls : ℕ → Call Rat (Input Rat)}
  {error dt slope low high : Rat} {i m n : ℕ}

/-- The calls up to the call `i`, but for the first, to which time has gone by. -/
def forward (calls : ℕ → Call Rat (Input Rat)) (i : ℕ) : Finset ℕ :=
  {m ∈ Finset.Icc 1 i | (calls (m - 1)).time < (calls m).time}

/-- The slope of the error from the call before to the call `m`. -/
def Config.quotient (c : Config Rat) (calls : ℕ → Call Rat (Input Rat)) (m : ℕ) : Rat :=
  (c.error (calls m).input - c.error (calls (m - 1)).input) /
    ((calls m).time - (calls (m - 1)).time)

/-- The filtered slope at the start, and the slopes of the error up to the call `i`. -/
def Config.seen (c : Config Rat) (calls : ℕ → Call Rat (Input Rat)) (i : ℕ) : Finset Rat :=
  insert c.slopeStart ((forward calls i).image (c.quotient calls))

/-- The part of the way to the slope of the error that the filter goes in a time. -/
def Config.share (c : Config Rat) (dt : Rat) : Rat := dt / (c.td / c.nd + dt)

theorem Config.seen_nonempty (c : Config Rat) (calls : ℕ → Call Rat (Input Rat)) (i : ℕ) :
    (c.seen calls i).Nonempty :=
  Finset.insert_nonempty _ _

theorem mem_forward_iff : m ∈ forward calls i ↔
    (1 ≤ m ∧ m ≤ i) ∧ (calls (m - 1)).time < (calls m).time := by
  rw [forward, Finset.mem_filter, Finset.mem_Icc]

theorem forward_subset (h : i ≤ n) : forward calls i ⊆ forward calls n := by
  intro m hm
  obtain ⟨⟨hlow, hhigh⟩, hforward⟩ := mem_forward_iff.1 hm
  exact mem_forward_iff.2 ⟨⟨hlow, hhigh.trans h⟩, hforward⟩

theorem succ_mem_forward_iff :
    i + 1 ∈ forward calls (i + 1) ↔ (calls i).time < (calls (i + 1)).time := by
  rw [mem_forward_iff, Nat.add_sub_cancel]
  exact and_iff_right ⟨Nat.le_add_left 1 i, le_rfl⟩

theorem Config.seen_subset (h : i ≤ n) : c.seen calls i ⊆ c.seen calls n :=
  Finset.insert_subset_insert _ (Finset.image_subset_image (forward_subset h))

theorem Config.quotient_mem_seen (h : m ∈ forward calls i) : c.quotient calls m ∈ c.seen calls i :=
  Finset.mem_insert_of_mem (Finset.mem_image_of_mem _ h)

/-! ## One call -/

section Share

variable (hc : c.Sound) (hd : c.action.hasDerivative = true) (hdt : 0 < dt)
include hc hd hdt

theorem Config.share_pos : 0 < c.share dt :=
  div_pos hdt (add_pos (div_pos (hc.td hd) hc.nd) hdt)

/-- The filter has a time constant, so that it never goes all of the way. -/
theorem Config.share_lt_one : c.share dt < 1 := by
  have constant : 0 < c.td / c.nd := div_pos (hc.td hd) hc.nd
  rw [share, div_lt_one (add_pos constant hdt)]
  exact lt_add_of_pos_left dt constant

end Share

theorem Config.slope_of_pos (hd : c.action.hasDerivative = true) (hdt : 0 < dt) :
    c.slope s error dt = s.slope + c.share dt * ((error - s.error) / dt - s.slope) := by
  simp [Config.slope, Config.share, hd, hdt]

/-- The first call leaves the filtered slope as it is. -/
theorem slope_memoryAt_one (c : Config Rat) (calls : ℕ → Call Rat (Input Rat)) :
    (Block.memoryAt (step c) (initial c) calls 1).slope = c.slopeStart := by
  have first : (initial c).last = none := rfl
  rw [Block.memoryAt, Block.memoryAt, step_first first]
  rfl

/-- A call to which no time has gone by leaves it as it is too. -/
theorem slope_memoryAt_of_not_lt (h : ¬ (calls i).time < (calls (i + 1)).time) :
    (Block.memoryAt (step c) (initial c) calls (i + 2)).slope =
      (Block.memoryAt (step c) (initial c) calls (i + 1)).slope := by
  have still : ¬ 0 < (calls (i + 1)).time - (calls i).time := mt sub_pos.1 h
  rw [Block.memoryAt, step_later (last_memoryAt c calls i), Config.after,
    Config.slope_of_not_pos still]

/-- Any other call takes the filtered slope a part of the way to the slope of the error. -/
theorem slope_memoryAt_of_lt (hd : c.action.hasDerivative = true)
    (h : (calls i).time < (calls (i + 1)).time) :
    (Block.memoryAt (step c) (initial c) calls (i + 2)).slope =
      (Block.memoryAt (step c) (initial c) calls (i + 1)).slope +
        c.share ((calls (i + 1)).time - (calls i).time) * (c.quotient calls (i + 1) -
          (Block.memoryAt (step c) (initial c) calls (i + 1)).slope) := by
  rw [Block.memoryAt, step_later (last_memoryAt c calls i), Config.after,
    Config.slope_of_pos hd (sub_pos.2 h), error_memoryAt]
  rfl

/-- What is left of the distance to the slope of the error. -/
theorem slope_memoryAt_sub (hd : c.action.hasDerivative = true)
    (h : (calls i).time < (calls (i + 1)).time) :
    (Block.memoryAt (step c) (initial c) calls (i + 2)).slope - c.quotient calls (i + 1) =
      (1 - c.share ((calls (i + 1)).time - (calls i).time)) *
        ((Block.memoryAt (step c) (initial c) calls (i + 1)).slope -
          c.quotient calls (i + 1)) := by
  rw [slope_memoryAt_of_lt hd h]
  ring

/-- The distance shrinks, as long as there is any. -/
theorem abs_slope_memoryAt_sub_lt (hc : c.Sound) (hd : c.action.hasDerivative = true)
    (h : (calls i).time < (calls (i + 1)).time)
    (hapart : (Block.memoryAt (step c) (initial c) calls (i + 1)).slope ≠
      c.quotient calls (i + 1)) :
    |(Block.memoryAt (step c) (initial c) calls (i + 2)).slope - c.quotient calls (i + 1)| <
      |(Block.memoryAt (step c) (initial c) calls (i + 1)).slope - c.quotient calls (i + 1)| := by
  have positive := Config.share_pos hc hd (sub_pos.2 h)
  have below := Config.share_lt_one hc hd (sub_pos.2 h)
  rw [slope_memoryAt_sub hd h, abs_mul, abs_of_pos (sub_pos.2 below)]
  exact mul_lt_of_lt_one_left (abs_pos.2 (sub_ne_zero.2 hapart)) (sub_lt_self 1 positive)

/-- At a call where the slope of the error is `slope`, or to which no time has gone by, the distance
to `slope` does not grow. -/
theorem abs_slope_memoryAt_sub_le (hc : c.Sound) (hd : c.action.hasDerivative = true)
    (hslope : (calls i).time < (calls (i + 1)).time → c.quotient calls (i + 1) = slope) :
    |(Block.memoryAt (step c) (initial c) calls (i + 2)).slope - slope| ≤
      |(Block.memoryAt (step c) (initial c) calls (i + 1)).slope - slope| := by
  by_cases h : (calls i).time < (calls (i + 1)).time
  · obtain rfl := hslope h
    by_cases hthere : (Block.memoryAt (step c) (initial c) calls (i + 1)).slope =
        c.quotient calls (i + 1)
    · rw [slope_memoryAt_sub hd h, hthere, sub_self, mul_zero]
    · exact (abs_slope_memoryAt_sub_lt hc hd h hthere).le
  · rw [slope_memoryAt_of_not_lt h]

/-! ## All calls -/

/-- After a call, bounds of the slopes so far are bounds of the filtered slope. -/
theorem slope_memoryAt_mem (hc : c.Sound) (hd : c.action.hasDerivative = true)
    (hseen : ∀ q ∈ c.seen calls i, low ≤ q ∧ q ≤ high) :
    low ≤ (Block.memoryAt (step c) (initial c) calls (i + 1)).slope ∧
      (Block.memoryAt (step c) (initial c) calls (i + 1)).slope ≤ high := by
  induction i with
  | zero =>
    rw [slope_memoryAt_one]
    exact hseen _ (Finset.mem_insert_self _ _)
  | succ i ih =>
    obtain ⟨hlow, hhigh⟩ := ih fun q hq => hseen q (Config.seen_subset (Nat.le_succ i) hq)
    by_cases h : (calls i).time < (calls (i + 1)).time
    · -- the filtered slope lies between where it was and the slope of the error
      obtain ⟨hlow', hhigh'⟩ := hseen _ (Config.quotient_mem_seen (succ_mem_forward_iff.2 h))
      have positive := Config.share_pos hc hd (sub_pos.2 h)
      have left := sub_pos.2 (Config.share_lt_one hc hd (sub_pos.2 h))
      rw [slope_memoryAt_of_lt hd h]
      generalize c.share ((calls (i + 1)).time - (calls i).time) = w at positive left ⊢
      generalize (Block.memoryAt (step c) (initial c) calls (i + 1)).slope = y at hlow hhigh ⊢
      generalize c.quotient calls (i + 1) = q at hlow' hhigh' ⊢
      have mean : y + w * (q - y) = (1 - w) * y + w * q := by ring
      rw [mean]
      constructor
      · calc low = (1 - w) * low + w * low := by ring
          _ ≤ (1 - w) * y + w * q := by gcongr
      · calc (1 - w) * y + w * q ≤ (1 - w) * high + w * high := by gcongr
          _ = high := by ring
    · rw [slope_memoryAt_of_not_lt h]
      exact ⟨hlow, hhigh⟩

/-- Over calls where the slope of the error stays the same, the distance to it does not grow. -/
theorem abs_slope_memoryAt_sub_le_of_le (hc : c.Sound) (hd : c.action.hasDerivative = true)
    (hin : i ≤ n) (hslope : ∀ m ∈ forward calls n, i < m → c.quotient calls m = slope) :
    |(Block.memoryAt (step c) (initial c) calls (n + 1)).slope - slope| ≤
      |(Block.memoryAt (step c) (initial c) calls (i + 1)).slope - slope| := by
  induction n, hin using Nat.le_induction with
  | base => exact le_rfl
  | succ n hin ih =>
    have before := ih fun m hm => hslope m (forward_subset (Nat.le_succ n) hm)
    refine (abs_slope_memoryAt_sub_le hc hd fun h => ?_).trans before
    exact hslope _ (succ_mem_forward_iff.2 h) (Nat.lt_succ_of_le hin)

/-- **The filter never overshoots.**  After every call of a PD or PID controller, at whatever times,
the filtered slope is among those that were seen: between the least and the greatest of its start
and the slopes of the error up to that call, wherever time had gone by.  Over calls where these
slopes are all the same, its distance to that slope never grows, and it shrinks at each of them
unless it is zero. -/
theorem never_overshoots {b : Block Rat (Input Rat) (State Rat) Rat} (hb : block c = .ok b)
    (haction : c.action = .PD ∨ c.action = .PID) (began : Option Rat)
    (calls : ℕ → Call Rat (Input Rat)) :
    ∃ (y : ℕ → Rat) (s : ℕ → State Rat),
      (∀ n, b.Runs (b.start began) ((List.range n).map calls) ((List.range n).map y) (s n)) ∧
      (∀ i, (c.seen calls i).min' (c.seen_nonempty calls i) ≤ (s (i + 1)).slope ∧
        (s (i + 1)).slope ≤ (c.seen calls i).max' (c.seen_nonempty calls i)) ∧
      ∀ i n slope, i ≤ n → (∀ m ∈ forward calls n, i < m → c.quotient calls m = slope) →
        |(s (n + 1)).slope - slope| ≤ |(s (i + 1)).slope - slope| ∧
        ∀ m ∈ forward calls n, i < m → (s m).slope ≠ slope →
          |(s (m + 1)).slope - slope| < |(s m).slope - slope| := by
  obtain ⟨hc, rfl⟩ := block_eq_ok_iff.1 hb
  have hd : c.action.hasDerivative = true := by
    rcases haction with h | h
    · rw [h]; rfl
    · rw [h]; rfl
  refine ⟨Block.outputAt (step c) (initial c) calls, Block.memoryAt (step c) (initial c) calls,
    Block.timed_stepsAs.runs_range (initial c) calls, ?_, ?_⟩
  · intro i
    exact slope_memoryAt_mem hc hd fun q hq => ⟨Finset.min'_le _ _ hq, Finset.le_max' _ _ hq⟩
  · intro i n slope hin hslope
    refine ⟨abs_slope_memoryAt_sub_le_of_le hc hd hin hslope, ?_⟩
    intro m hm him hapart
    obtain rfl := hslope m hm him
    obtain ⟨-, hforward⟩ := mem_forward_iff.1 hm
    obtain ⟨k, rfl⟩ := Nat.exists_eq_add_of_lt (Nat.zero_lt_of_lt him)
    rw [Nat.zero_add] at hforward hapart ⊢
    exact abs_slope_memoryAt_sub_lt hc hd hforward hapart

/-- A PD controller whose filter has the time constant one half. -/
def damped : Config Rat := { Config.standard with action := .PD, td := 1, nd := 2, slopeStart := 3 }

/-- The second call goes back in time.  After it the error rises by one in each second, and the
filter falls from its start toward that. -/
theorem never_overshoots_falling :
    let calls : ℕ → Call Rat (Input Rat) := fun i =>
      ⟨[1, 0, 1 / 2, 2].getD i 0, ⟨[5, 0, 1 / 2, 2].getD i 0, 0⟩⟩
    ∃ (b : Block Rat (Input Rat) (State Rat) Rat) (y : ℕ → Rat) (s : ℕ → State Rat),
      block damped = .ok b ∧
      (∀ n, b.Runs (b.start none) ((List.range n).map calls) ((List.range n).map y) (s n)) ∧
      damped.seen calls 3 = {1, 3} ∧ 1 ≤ (s 4).slope ∧ (s 4).slope ≤ 3 ∧
      |(s 3).slope - 1| < |(s 2).slope - 1| ∧ |(s 4).slope - 1| < |(s 3).slope - 1| := by
  intro calls
  have built : block damped = .ok (.timed "PID" (initial damped) (step damped)) := by
    with_unfolding_all rfl
  obtain ⟨y, s, runs, among, constant⟩ := never_overshoots built (.inl rfl) none calls
  have seen : damped.seen calls 3 = {1, 3} := by decide +kernel
  have memory : s = Block.memoryAt (step damped) (initial damped) calls := by
    funext n
    exact ((runs n).unique (Block.timed_stepsAs.runs_range _ calls n)).2
  have rising : ∀ m ∈ forward calls 3, 0 < m → damped.quotient calls m = 1 := by decide +kernel
  obtain ⟨-, shrinks⟩ := constant 0 3 1 (by decide) rising
  obtain ⟨low, high⟩ := among 3
  simp only [seen] at low high
  refine ⟨_, y, s, built, runs, seen, low, high, ?_, ?_⟩
  · refine shrinks 2 (by decide +kernel) (by decide) ?_
    rw [memory]
    decide +kernel
  · refine shrinks 3 (by decide +kernel) (by decide) ?_
    rw [memory]
    decide +kernel

end ControlBlocks.Pid

import ControlBlocks.Timed.Sampling
import Mathlib.Algebra.Order.Archimedean.Basic
import Mathlib.Data.Rat.Floor
import Mathlib.Tactic.Linarith

/-!
# Schedules in exact time

Where adding up periods ends.

* `StepsPast` — the loop that adds up periods, without a bound on its turns;
* `StepsPast.addPeriods_eq` — the bounded loop ends where it does, if the bound suffices;
* `stepsPast_iff` — it makes the least number of turns that leads past a time;
* `lt_add_periodsWithin` — the bound suffices;
* `catchUp_exact` — `catchUp` goes to the first instant of the grid after a time;
* `SampleClock.lt_next_tick` — so does a clock that is looked at.
-/

set_option autoImplicit false

namespace ControlBlocks

/-! ## The loop -/

section Loop

variable {α : Type} [Scalar α] {period now next last : α} {m : ℕ}

/-- As long as the instant is not after `now`, the period is added to it: from `next` on this is
done `m` times, and leads to `last`. -/
inductive StepsPast (period now : α) : (next : α) → (m : ℕ) → (last : α) → Prop where
  | done {next : α} (hafter : ¬ next ≤ now) : StepsPast period now next 0 next
  | turn {next last : α} {m : ℕ} (hnext : next ≤ now)
      (rest : StepsPast period now (next + period) m last) : StepsPast period now next (m + 1) last

/-- A bound on the turns that is not too low does not matter. -/
theorem StepsPast.addPeriods_eq (h : StepsPast period now next m last) {fuel : ℕ} (hm : m ≤ fuel) :
    addPeriods period now fuel next = last := by
  induction h generalizing fuel with
  | done hafter =>
    cases fuel with
    | zero => rfl
    | succ fuel => rw [addPeriods, if_neg hafter]
  | turn hnext rest ih =>
    cases fuel with
    | zero => omega
    | succ fuel =>
      rw [addPeriods, if_pos hnext]
      exact ih (Nat.le_of_succ_le_succ hm)

end Loop

variable {period next now last : Rat} {m : ℕ}

/-- An instant counted from the second one is one more counted from the first. -/
theorem add_period_add (period next : Rat) (k : ℕ) :
    next + period + k * period = next + (k + 1 : ℕ) * period := by
  push_cast
  ring

theorem StepsPast.exact (h : StepsPast period now next m last) :
    (∀ k < m, next + k * period ≤ now) ∧ now < next + m * period ∧ last = next + m * period := by
  induction h with
  | done hafter => exact ⟨by simp, by simpa using hafter, by simp⟩
  | turn hnext rest ih =>
    obtain ⟨hbefore, hafter, heq⟩ := ih
    simp only [add_period_add] at hbefore hafter heq
    refine ⟨fun k hk => ?_, hafter, heq⟩
    cases k with
    | zero => simpa using hnext
    | succ k => exact hbefore k (Nat.lt_of_succ_lt_succ hk)

theorem stepsPast_of_forall (hbefore : ∀ k < m, next + k * period ≤ now)
    (hafter : now < next + m * period) : StepsPast period now next m (next + m * period) := by
  induction m generalizing next with
  | zero =>
    have later : ¬ next ≤ now := by simpa using hafter
    simpa using StepsPast.done later
  | succ m ih =>
    rw [← add_period_add] at hafter ⊢
    refine .turn (by simpa using hbefore 0 (Nat.succ_pos m)) (ih (fun k hk => ?_) hafter)
    rw [add_period_add]
    exact hbefore (k + 1) (Nat.succ_lt_succ hk)

/-- The loop makes the least number of turns that leads past `now`. -/
theorem stepsPast_iff :
    StepsPast period now next m last ↔
      IsLeast {k : ℕ | now < next + k * period} m ∧ last = next + m * period := by
  constructor
  · intro h
    obtain ⟨hbefore, hafter, heq⟩ := h.exact
    refine ⟨⟨hafter, fun k hk => ?_⟩, heq⟩
    by_contra hlt
    exact absurd hk (not_lt.2 (hbefore k (not_le.1 hlt)))
  · rintro ⟨⟨hafter, hleast⟩, rfl⟩
    refine stepsPast_of_forall (fun k hk => ?_) hafter
    by_contra hlate
    exact absurd (hleast (not_le.1 hlate)) (not_le.2 hk)

/-! ## The bound -/

/-- The integer part of a number leaves less than one. -/
theorem lt_wholePart_add_one (q : Rat) :
    q < ((if q < 0 then q.ceil else q.floor).toNat : ℕ) + 1 := by
  split
  · rename_i hq
    have : (0 : Rat) ≤ ((q.ceil.toNat : ℕ) : Rat) := Nat.cast_nonneg _
    linarith
  · rename_i hq
    have whole : 0 ≤ q.floor := Int.floor_nonneg.2 (not_lt.1 hq)
    have cast : ((q.floor.toNat : ℕ) : Rat) = (q.floor : Rat) := by
      exact_mod_cast Int.toNat_of_nonneg whole
    rw [cast]
    exact Int.lt_floor_add_one q

/-- The number of periods that are at hand leads past `now`. -/
theorem lt_add_periodsWithin (hperiod : 0 < period) (next now : Rat) :
    now < next + (periodsWithin period next now : ℕ) * period := by
  have enough : (now - next) / period < (periodsWithin period next now : ℕ) := by
    have count : periodsWithin period next now = 2 * (if (now - next) / period < 0
        then ((now - next) / period).ceil else ((now - next) / period).floor).toNat + 4 := rfl
    have whole := lt_wholePart_add_one ((now - next) / period)
    rw [count]
    push_cast
    linarith
  have := (div_lt_iff₀ hperiod).1 enough
  linarith

/-- **The first instant after a time.**  Catching up adds the least number of periods that leads
past `now`. -/
theorem catchUp_exact (hperiod : 0 < period) (next now : Rat) :
    ∃ m : ℕ, IsLeast {k : ℕ | now < next + k * period} m ∧
      catchUp period next now = next + m * period := by
  have enough := lt_add_periodsWithin hperiod next now
  obtain ⟨m, hm⟩ : ∃ m, IsLeast {k : ℕ | now < next + k * period} m :=
    ⟨_, Nat.isLeast_find ⟨_, enough⟩⟩
  exact ⟨m, hm, (stepsPast_iff.2 ⟨hm, rfl⟩).addPeriods_eq (hm.2 enough)⟩

/-- The schedule lies after the time to which it has caught up. -/
theorem lt_catchUp (hperiod : 0 < period) (next now : Rat) : now < catchUp period next now := by
  obtain ⟨m, hm, heq⟩ := catchUp_exact hperiod next now
  rw [heq]
  exact hm.1

/-- A schedule that was behind lies no more than a period ahead. -/
theorem catchUp_le_add (hperiod : 0 < period) (hnext : next ≤ now) :
    catchUp period next now ≤ now + period := by
  obtain ⟨m, ⟨hafter, hleast⟩, heq⟩ := catchUp_exact hperiod next now
  rw [heq]
  cases m with
  | zero =>
    push_cast
    linarith
  | succ m =>
    have before : next + m * period ≤ now := by
      by_contra hlate
      exact absurd (hleast (not_le.1 hlate)) (Nat.not_succ_le_self m)
    push_cast
    linarith

/-! ## The clock -/

namespace SampleClock

variable {c : SampleClock Rat}

theorem tick_of_lt (h : now < c.next) : c.tick now = (false, c) := by
  have early : c.isDue now = false := by simpa [isDue] using h
  rw [tick, early]
  rfl

theorem tick_of_le (h : c.next ≤ now) : c.tick now = (true, c.catchUp now) := by
  have due : c.isDue now = true := by simpa [isDue] using h
  rw [tick, due]
  rfl

theorem fst_tick (c : SampleClock Rat) (now : Rat) : (c.tick now).1 = c.isDue now := by
  unfold tick
  split
  · rename_i hdue
    exact hdue.symm
  · rename_i hdue
    exact (Bool.eq_false_iff.2 hdue).symm

theorem period_tick (c : SampleClock Rat) (now : Rat) : (c.tick now).2.period = c.period := by
  unfold tick
  split <;> rfl

/-- The next sample is always to come. -/
theorem lt_next_tick (hperiod : 0 < c.period) (now : Rat) : now < (c.tick now).2.next := by
  rcases lt_or_ge now c.next with hearly | hdue
  · rw [tick_of_lt hearly]
    exact hearly
  · rw [tick_of_le hdue]
    exact lt_catchUp hperiod c.next now

end SampleClock

end ControlBlocks

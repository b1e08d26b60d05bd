import ControlBlocks.Proofs.Block.Built
import ControlBlocks.Proofs.Calls.Basic
import ControlBlocks.Proofs.Exact.Scalar
import ControlBlocks.Proofs.Exact.Schedule

/-!
# Sample and hold

Which input a sampling block gives, said by the instants of its grid.

* `Grid.Due` — the calls at which a sample is due: an instant has come up since the call before;
* `Grid.Scheduled` — the clock shows the first instant after the call before;
* `IsLatest` — the latest of the first calls at which something holds;
* `Grid.isLatest_of_first` — the first call from an instant on is the latest due one until the next
  instant comes up;
* `sampled_inputs` — a hold and a sampler give the input of the latest due call.
-/

set_option autoImplicit false

namespace ControlBlocks.Sampling

variable {g : Grid Rat} {calls : ℕ → Call Rat Rat} {i : ℕ}

/-! ## Instants -/

/-- A time is one of the instants `start`, `start + period`, … -/
def Grid.IsInstant (g : Grid Rat) (x : Rat) : Prop := ∃ k : ℕ, x = g.start + k * g.period

/-- A sample is due at the call `i`: an instant is no later than it, and later than the call
before, if there is one. -/
def Grid.Due (g : Grid Rat) (calls : ℕ → Call Rat Rat) (i : ℕ) : Prop :=
  ∃ k : ℕ, g.start + k * g.period ≤ (calls i).time ∧
    (0 < i → (calls (i - 1)).time < g.start + k * g.period)

theorem Grid.IsInstant.start_le {x : Rat} (hx : g.IsInstant x) (hperiod : 0 < g.period) :
    g.start ≤ x := by
  obtain ⟨k, rfl⟩ := hx
  have : 0 ≤ (k : Rat) * g.period := by positivity
  linarith

theorem Grid.Due.start_le (h : g.Due calls i) (hperiod : 0 < g.period) :
    g.start ≤ (calls i).time := by
  obtain ⟨k, hk, -⟩ := h
  exact (IsInstant.start_le ⟨k, rfl⟩ hperiod).trans hk

/-- Of two instants, the later one is a period later at least. -/
theorem Grid.IsInstant.add_period_le {x y : Rat} (hx : g.IsInstant x) (hy : g.IsInstant y)
    (hperiod : 0 < g.period) (hxy : x < y) : x + g.period ≤ y := by
  obtain ⟨k, rfl⟩ := hx
  obtain ⟨j, rfl⟩ := hy
  have hkj : k < j := by
    have : (k : Rat) * g.period < j * g.period := by linarith
    exact_mod_cast lt_of_mul_lt_mul_right this hperiod.le
  have count : (k : Rat) + 1 ≤ j := by exact_mod_cast hkj
  have := mul_le_mul_of_nonneg_right count hperiod.le
  linarith

/-- After the first instant, there is one a period before. -/
theorem Grid.IsInstant.sub_period {x : Rat} (hx : g.IsInstant x) (hlater : g.start < x) :
    g.IsInstant (x - g.period) := by
  obtain ⟨k, rfl⟩ := hx
  cases k with
  | zero => simp at hlater
  | succ k =>
    refine ⟨k, ?_⟩
    push_cast
    ring

theorem Grid.IsInstant.add_period {x : Rat} (hx : g.IsInstant x) : g.IsInstant (x + g.period) := by
  obtain ⟨k, rfl⟩ := hx
  refine ⟨k + 1, ?_⟩
  push_cast
  ring

/-- The last instant that a time has reached is a period before the first one after it. -/
theorem Grid.IsInstant.isLeast_add_period {x t : Rat} (hx : g.IsInstant x) (hperiod : 0 < g.period)
    (hxt : x ≤ t) (htx : t < x + g.period) :
    IsLeast {y | g.IsInstant y ∧ t < y} (x + g.period) :=
  ⟨⟨hx.add_period, htx⟩, fun _ hy => hx.add_period_le hy.1 hperiod (hxt.trans_lt hy.2)⟩

/-- From the first instant on, some instant is the last one that a time has reached. -/
theorem Grid.exists_last_instant (hperiod : 0 < g.period) {t : Rat} (ht : g.start ≤ t) :
    ∃ x, g.IsInstant x ∧ x ≤ t ∧ t < x + g.period := by
  have low := Nat.floor_le (div_nonneg (sub_nonneg.2 ht) hperiod.le)
  have high := Nat.lt_floor_add_one ((t - g.start) / g.period)
  rw [le_div_iff₀ hperiod] at low
  rw [div_lt_iff₀ hperiod] at high
  exact ⟨_, ⟨⌊(t - g.start) / g.period⌋₊, rfl⟩, by linarith, by linarith⟩

/-- From an instant below which all others are past, the clock catches up to the first instant
that is to come. -/
theorem isLeast_tick (hperiod : 0 < g.period) {c : SampleClock Rat} (hc : c.period = g.period)
    (hnext : g.IsInstant c.next) {now : Rat} (hpast : ∀ x, g.IsInstant x → x < c.next → x ≤ now) :
    IsLeast {x | g.IsInstant x ∧ now < x} (c.tick now).2.next := by
  unfold SampleClock.tick
  split
  · obtain ⟨k, hk⟩ := hnext
    obtain ⟨m, ⟨hafter, hfirst⟩, hm⟩ := catchUp_exact (hc ▸ hperiod) c.next now
    -- an instant counted from the next one is so many later on the grid
    have shift (m : ℕ) : c.next + m * c.period = g.start + (k + m : ℕ) * g.period := by
      rw [hk, hc]
      push_cast
      ring
    have next : (c.catchUp now).next = g.start + (k + m : ℕ) * g.period := hm.trans (shift m)
    have later : now < g.start + (k + m : ℕ) * g.period := shift m ▸ hafter
    rw [next]
    refine ⟨⟨⟨k + m, rfl⟩, later⟩, ?_⟩
    rintro x ⟨⟨j, rfl⟩, hnow⟩
    have ahead : k ≤ j := by
      by_contra hlt
      have earlier : (j : Rat) * g.period < k * g.period := by
        have : (j : Rat) < k := by exact_mod_cast not_le.1 hlt
        gcongr
      have := hpast _ ⟨j, rfl⟩ (by linarith)
      linarith
    obtain ⟨n, rfl⟩ := Nat.exists_eq_add_of_le ahead
    have reached : now < c.next + n * c.period := by
      rw [shift]
      exact hnow
    have enough : m ≤ n := hfirst reached
    have : ((k + m : ℕ) : Rat) ≤ (k + n : ℕ) := by exact_mod_cast Nat.add_le_add_left enough k
    gcongr
  · rename_i hdue
    have later : now < c.next := by simpa [SampleClock.isDue] using hdue
    refine ⟨⟨hnext, later⟩, ?_⟩
    rintro x ⟨hx, hnow⟩
    by_contra hlt
    exact absurd hnow (not_lt.2 (hpast x hx (not_le.1 hlt)))

/-- Before the call `i`, the clock shows the first instant after the call before. -/
structure Grid.Scheduled (g : Grid Rat) (calls : ℕ → Call Rat Rat) (i : ℕ) (c : SampleClock Rat) :
    Prop where
  period : c.period = g.period
  next : IsLeast {x | g.IsInstant x ∧ (0 < i → (calls (i - 1)).time < x)} c.next

theorem Grid.scheduled_clock (hperiod : 0 < g.period) (calls : ℕ → Call Rat Rat) :
    g.Scheduled calls 0 g.clock where
  period := rfl
  next := by
    refine ⟨⟨⟨0, by simp [clock]⟩, fun h => absurd h (lt_irrefl 0)⟩, ?_⟩
    rintro x ⟨hx, -⟩
    exact hx.start_le hperiod

/-- The clock has a sample due just at the calls at which one is. -/
theorem Grid.Scheduled.isDue_iff {c : SampleClock Rat} (h : g.Scheduled calls i c) :
    c.isDue (calls i).time = true ↔ g.Due calls i := by
  have due : c.isDue (calls i).time = true ↔ c.next ≤ (calls i).time := decide_eq_true_iff
  obtain ⟨⟨⟨k, hk⟩, hafter⟩, hleast⟩ := h.next
  rw [due]
  constructor
  · intro hnow
    rw [hk] at hnow hafter
    exact ⟨k, hnow, hafter⟩
  · rintro ⟨m, hnow, hm⟩
    have : c.next ≤ g.start + m * g.period := hleast ⟨⟨m, rfl⟩, hm⟩
    linarith

theorem Grid.Scheduled.tick {c : SampleClock Rat} (h : g.Scheduled calls i c)
    (hperiod : 0 < g.period) (hascend : Monotone fun i => (calls i).time) :
    g.Scheduled calls (i + 1) (c.tick (calls i).time).2 where
  period := (c.period_tick _).trans h.period
  next := by
    have past : ∀ x, g.IsInstant x → x < c.next → x ≤ (calls i).time := by
      intro x hx hlt
      by_contra hnow
      have hnow := not_le.1 hnow
      have before : (calls (i - 1)).time ≤ (calls i).time := hascend (Nat.sub_le i 1)
      exact absurd hlt (not_lt.2 (h.next.2 ⟨hx, fun _ => before.trans_lt hnow⟩))
    simpa using isLeast_tick hperiod h.period h.next.1.1 past

/-! ## Latest calls -/

/-- The latest of the first `n` calls at which something holds, if it holds at one of them. -/
def IsLatest (due : ℕ → Prop) (n : ℕ) : Option ℕ → Prop
  | some j => IsGreatest {j | j < n ∧ due j} j
  | none => ∀ j < n, ¬ due j

section IsLatest

variable {due : ℕ → Prop} {n : ℕ} {o o' : Option ℕ}

theorem isLatest_zero (due : ℕ → Prop) : IsLatest due 0 none :=
  fun _ hj => absurd hj (Nat.not_lt_zero _)

theorem isLatest_succ_some_iff {j : ℕ} :
    IsLatest due (n + 1) (some j) ↔ IsGreatest {j | j ≤ n ∧ due j} j := by
  simp only [IsLatest, Nat.lt_succ_iff]

theorem isLatest_succ_none_iff : IsLatest due (n + 1) none ↔ ∀ j ≤ n, ¬ due j := by
  simp only [IsLatest, Nat.lt_succ_iff]

theorem isLatest_succ_of_due (h : due n) : IsLatest due (n + 1) (some n) :=
  ⟨⟨Nat.lt_succ_self n, h⟩, fun _ hj => Nat.le_of_lt_succ hj.1⟩

theorem IsLatest.succ_of_not_due (hlatest : IsLatest due n o) (h : ¬ due n) :
    IsLatest due (n + 1) o := by
  have earlier : ∀ j, j < n + 1 → due j → j < n := by
    intro j hj hdue
    have : j ≠ n := by
      rintro rfl
      exact h hdue
    omega
  cases o with
  | none => exact fun j hj hdue => hlatest j (earlier j hj hdue) hdue
  | some j =>
    obtain ⟨⟨hj, hdue⟩, hmax⟩ := hlatest
    exact ⟨⟨by omega, hdue⟩, fun m hm => hmax ⟨earlier m hm.1 hm.2, hm.2⟩⟩

theorem IsLatest.unique (h : IsLatest due n o) (h' : IsLatest due n o') : o = o' := by
  cases o with
  | none =>
    cases o' with
    | none => rfl
    | some j => exact absurd h'.1.2 (h j h'.1.1)
  | some j =>
    cases o' with
    | none => exact absurd h.1.2 (h' j h.1.1)
    | some j' => rw [IsGreatest.unique h h']

end IsLatest

/-- Until the next instant comes up, the first call from an instant on is the latest due one. -/
theorem Grid.isLatest_of_first (hperiod : 0 < g.period) (hascend : Monotone fun i => (calls i).time)
    {x : Rat} (hx : g.IsInstant x) {j n : ℕ} (hj : IsLeast {j | x ≤ (calls j).time} j) (hjn : j < n)
    (hbefore : ∀ i < n, (calls i).time < x + g.period) : IsLatest (g.Due calls) n (some j) := by
  refine ⟨⟨hjn, ?_⟩, ?_⟩
  · obtain ⟨k, rfl⟩ := hx
    refine ⟨k, hj.1, fun h => ?_⟩
    by_contra hearly
    exact absurd (hj.2 (not_lt.1 hearly)) (by omega)
  · rintro m ⟨hm, l, hl, hafter⟩
    by_contra hlate
    have hlate := not_le.1 hlate
    -- the instant that makes the call `m` due would be the next one, or later
    have between : (calls j).time ≤ (calls (m - 1)).time := hascend (by omega)
    have later := (hj.1.trans between).trans_lt (hafter (by omega))
    have next := hx.add_period_le ⟨l, rfl⟩ hperiod later
    exact absurd (hbefore m hm) (not_lt.2 (next.trans hl))

/-- Before a call at which a sample is due, all calls are earlier. -/
theorem Grid.Due.isLeast_time {f : ℕ} (h : g.Due calls f)
    (hascend : Monotone fun i => (calls i).time) :
    IsLeast {j | (calls f).time ≤ (calls j).time} f := by
  refine ⟨le_refl (calls f).time, fun j hj => ?_⟩
  by_contra hlt
  obtain ⟨k, hnow, hafter⟩ := h
  have before : (calls j).time ≤ (calls (f - 1)).time := hascend (by omega)
  exact absurd (hj.trans before) (not_le.2 ((hafter (by omega)).trans_le hnow))

/-- A call at which the clock has a sample due becomes the latest one. -/
theorem Grid.Scheduled.isLatest_succ {c : SampleClock Rat} (h : g.Scheduled calls i c)
    {o : Option ℕ} (hlatest : IsLatest (g.Due calls) i o) :
    IsLatest (g.Due calls) (i + 1) (if c.isDue (calls i).time then some i else o) := by
  split
  · rename_i hdue
    exact isLatest_succ_of_due (h.isDue_iff.1 hdue)
  · rename_i hdue
    exact hlatest.succ_of_not_due (mt h.isDue_iff.2 hdue)

/-! ## The two blocks -/

namespace ZeroOrderHold

/-- Before the call `i`, the input of the latest due call is held. -/
structure Tracks (g : Grid Rat) (calls : ℕ → Call Rat Rat) (i : ℕ) (s : State Rat) : Prop where
  scheduled : g.Scheduled calls i s.clock
  held : ∃ o, IsLatest (g.Due calls) i o ∧ s.held = o.map fun j => (calls j).input

theorem Tracks.step {s : State Rat} (h : Tracks g calls i s) (hperiod : 0 < g.period)
    (hascend : Monotone fun i => (calls i).time) :
    Tracks g calls (i + 1) (step (calls i).time s (calls i).input).2 where
  scheduled := h.scheduled.tick hperiod hascend
  held := by
    obtain ⟨o, hlatest, hheld⟩ := h.held
    refine ⟨_, h.scheduled.isLatest_succ hlatest, ?_⟩
    simp only [ZeroOrderHold.step, SampleClock.fst_tick]
    split
    · rfl
    · exact hheld

theorem exists_latest_outputAt (hperiod : 0 < g.period)
    (hascend : Monotone fun i => (calls i).time) (i : ℕ) :
    ∃ o, IsLatest (g.Due calls) (i + 1) o ∧
      Block.outputAt ZeroOrderHold.step ⟨g.clock, none⟩ calls i =
        (o.map fun j => (calls j).input).getD (calls i).input := by
  have tracks := Block.memoryAt_invariant (f := ZeroOrderHold.step) (s := ⟨g.clock, none⟩)
    (Tracks g calls) ⟨g.scheduled_clock hperiod calls, none, isLatest_zero _, rfl⟩
    (fun _ _ h => h.step hperiod hascend) (i + 1)
  obtain ⟨o, hlatest, hheld⟩ := tracks.held
  exact ⟨o, hlatest, congrArg (·.getD (calls i).input) hheld⟩

end ZeroOrderHold

namespace Sampler

/-- Before the call `i`, the value is the input of the latest due call, or of the first call. -/
structure Tracks (g : Grid Rat) (calls : ℕ → Call Rat Rat) (i : ℕ) (s : State Rat) : Prop where
  scheduled : g.Scheduled calls i s.clock
  started : s.started = decide (0 < i)
  value : ∃ o, IsLatest (g.Due calls) i o ∧
    (0 < i → s.value = (o.map fun j => (calls j).input).getD (calls 0).input)

theorem Tracks.step {s : State Rat} (h : Tracks g calls i s) (hperiod : 0 < g.period)
    (hascend : Monotone fun i => (calls i).time) :
    Tracks g calls (i + 1) (step (calls i).time s (calls i).input).2 where
  scheduled := h.scheduled.tick hperiod hascend
  started := by simp [Sampler.step]
  value := by
    obtain ⟨o, hlatest, hvalue⟩ := h.value
    refine ⟨_, h.scheduled.isLatest_succ hlatest, fun _ => ?_⟩
    simp only [Sampler.step, SampleClock.fst_tick, h.started]
    by_cases hdue : s.clock.isDue (calls i).time = true
    · simp [hdue]
    · by_cases hi : 0 < i
      · simp [hdue, hi, hvalue hi]
      · have first : i = 0 := by omega
        subst first
        have none_yet : o = none := hlatest.unique (isLatest_zero _)
        simp [hdue, none_yet]

theorem exists_latest_outputAt (hperiod : 0 < g.period)
    (hascend : Monotone fun i => (calls i).time) (i : ℕ) :
    ∃ o, IsLatest (g.Due calls) (i + 1) o ∧
      Block.outputAt Sampler.step ⟨g.clock, 0, false⟩ calls i =
        (o.map fun j => (calls j).input).getD (calls 0).input := by
  have start : Tracks g calls 0 ⟨g.clock, 0, false⟩ :=
    ⟨g.scheduled_clock hperiod calls, rfl, none, isLatest_zero _, fun h => absurd h (lt_irrefl 0)⟩
  have tracks := Block.memoryAt_invariant (f := Sampler.step) (Tracks g calls) start
    (fun _ _ h => h.step hperiod hascend) (i + 1)
  obtain ⟨o, hlatest, hvalue⟩ := tracks.value
  exact ⟨o, hlatest, hvalue (Nat.succ_pos i)⟩

end Sampler

/-- **The latest due input.**  At each call, a hold and a sampler give the input of the latest call
at which a sample was due, however many instants lie between two calls.  Before the first such
call the hold passes its input and the sampler gives its first one. -/
theorem sampled_inputs (hperiod : 0 < g.period) :
    ∃ hold sample, zeroOrderHold g = .ok hold ∧ sampler g = .ok sample ∧
      ∀ (began : Option Rat) (calls : ℕ → Call Rat Rat), (Monotone fun i => (calls i).time) →
        ∃ held sampled : ℕ → Rat,
          (∀ n, hold.Gives began ((List.range n).map calls) ((List.range n).map held)) ∧
          (∀ n, sample.Gives began ((List.range n).map calls) ((List.range n).map sampled)) ∧
          ∀ i,
            (∀ j, IsGreatest {j | j ≤ i ∧ g.Due calls j} j →
              held i = (calls j).input ∧ sampled i = (calls j).input) ∧
            ((∀ j ≤ i, ¬ g.Due calls j) →
              held i = (calls i).input ∧ sampled i = (calls 0).input) := by
  have accepted := And.intro hperiod (Scalar.isFinite_exact g.start)
  refine ⟨_, _, zeroOrderHold_eq_ok_iff.2 ⟨accepted, rfl⟩, sampler_eq_ok_iff.2 ⟨accepted, rfl⟩, ?_⟩
  intro began calls hascend
  refine ⟨_, _, Block.timed_stepsAs.gives_range began calls,
    Block.timed_stepsAs.gives_range began calls, ?_⟩
  intro i
  obtain ⟨o, hlatest, hheld⟩ := ZeroOrderHold.exists_latest_outputAt hperiod hascend i
  obtain ⟨o', hlatest', hsampled⟩ := Sampler.exists_latest_outputAt hperiod hascend i
  obtain rfl := hlatest.unique hlatest'
  constructor
  · intro j hj
    obtain rfl := hlatest.unique (isLatest_succ_some_iff.2 hj)
    exact ⟨hheld, hsampled⟩
  · intro hnone
    obtain rfl := hlatest.unique (isLatest_succ_none_iff.2 hnone)
    exact ⟨hheld, hsampled⟩

/-- A first sample that comes late, when three instants have come up at once. -/
theorem sampled_inputs_late :
    let calls : ℕ → Call Rat Rat := fun i => ⟨if i < 2 then 0 else 7, i⟩
    ∃ hold sample, zeroOrderHold ⟨2, 2⟩ = .ok hold ∧ sampler ⟨2, 2⟩ = .ok sample ∧
      hold.Gives none ((List.range 4).map calls) [0, 1, 2, 2] ∧
      sample.Gives none ((List.range 4).map calls) [0, 0, 2, 2] := by
  intro calls
  let g : Grid Rat := ⟨2, 2⟩
  have ascending : Monotone fun i => (calls i).time := by
    intro i j hij
    by_cases hj : j < 2
    · have hi : i < 2 := hij.trans_lt hj
      simp [calls, hi, hj]
    · by_cases hi : i < 2 <;> simp [calls, hi, hj]
  obtain ⟨hold, sample, hhold, hsample, run⟩ := sampled_inputs (g := g) (by norm_num)
  obtain ⟨held, sampled, givesHeld, givesSampled, inputs⟩ := run none calls ascending
  have early (j : ℕ) (hj : j < 2) : ¬ g.Due calls j := by
    rintro ⟨k, hk, -⟩
    have : (0 : Rat) ≤ k := Nat.cast_nonneg k
    simp only [calls, g, hj, if_true] at hk
    linarith
  have due : g.Due calls 2 := ⟨0, by norm_num [calls, g], by norm_num [calls, g]⟩
  have last (j : ℕ) (hj : 2 < j) : ¬ g.Due calls j := by
    rintro ⟨k, hk, hafter⟩
    have hafter := hafter (by omega)
    have late : ¬ j < 2 := by omega
    have later : ¬ j - 1 < 2 := by omega
    simp only [calls, late, later, if_false] at hk hafter
    linarith
  have latest (i : ℕ) (hi : 2 ≤ i) : IsGreatest {j | j ≤ i ∧ g.Due calls j} 2 :=
    ⟨⟨hi, due⟩, fun j hj => not_lt.1 fun hlate => last j hlate hj.2⟩
  have none_at (i : ℕ) (hi : i < 2) : ∀ j ≤ i, ¬ g.Due calls j :=
    fun j hj => early j (hj.trans_lt hi)
  obtain ⟨held₀, sampled₀⟩ := (inputs 0).2 (none_at 0 (by omega))
  obtain ⟨held₁, sampled₁⟩ := (inputs 1).2 (none_at 1 (by omega))
  obtain ⟨held₂, sampled₂⟩ := (inputs 2).1 2 (latest 2 (by omega))
  obtain ⟨held₃, sampled₃⟩ := (inputs 3).1 2 (latest 3 (by omega))
  have outputs : (List.range 4).map held = [0, 1, 2, 2] := by
    simp [List.range_succ, held₀, held₁, held₂, held₃, calls]
  have outputs' : (List.range 4).map sampled = [0, 0, 2, 2] := by
    simp [List.range_succ, sampled₀, sampled₁, sampled₂, sampled₃, calls]
  exact ⟨hold, sample, hhold, hsample, outputs ▸ givesHeld 4, outputs' ▸ givesSampled 4⟩

end ControlBlocks.Sampling

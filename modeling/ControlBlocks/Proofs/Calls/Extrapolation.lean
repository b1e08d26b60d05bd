import ControlBlocks.Proofs.Calls.Sampling
import Mathlib.Tactic.FieldSimp

/-!
# Extrapolation

Which line a first order hold goes on along, said by the instants of its grid.

* `FirstOrderHold.line` — the line through the inputs of two calls, as far as there are two;
* `FirstOrderHold.exists_latest_outputAt` — at any calls, it is that of the last two due ones;
* `Grid.Met` — from the first sample on, each instant has a call;
* `lines_through_instants` — then the line is that through the samples at the last two instants.
-/

set_option autoImplicit false

namespace ControlBlocks.Sampling

variable {g : Grid Rat} {calls : ℕ → Call Rat Rat} {i j j' f n : ℕ} {x : Rat}

/-! ## The last two due calls -/

namespace FirstOrderHold

/-- What is given at the call `i`, from the calls of the last two samples: the line through their
inputs, the input while there is one, and the present one before. -/
def line (g : Grid Rat) (calls : ℕ → Call Rat Rat) (i : ℕ) : (last before : Option ℕ) → Rat
  | none, _ => (calls i).input
  | some j, none => (calls j).input
  | some j, some j' =>
    (calls j).input + ((calls j).input - (calls j').input) *
      ((calls i).time - (calls j).time) / g.period

/-- Before the call `i`, the memory holds the input of the latest due call, when that was, and the
input of the latest due call before it. -/
structure Tracks (g : Grid Rat) (calls : ℕ → Call Rat Rat) (i : ℕ) (s : State Rat)
    (last before : Option ℕ) : Prop where
  scheduled : g.Scheduled calls i s.clock
  isLatest : IsLatest (g.Due calls) i last
  isLatest_before : IsLatest (g.Due calls) (last.getD 0) before
  current : s.current = last.map fun j => (calls j).input
  previous : s.previous = before.map fun j => (calls j).input
  sampledAt : ∀ j, last = some j → s.sampledAt = (calls j).time

theorem tracks_start (hperiod : 0 < g.period) (calls : ℕ → Call Rat Rat) :
    Tracks g calls 0 ⟨g.clock, none, none, g.start⟩ none none where
  scheduled := g.scheduled_clock hperiod calls
  isLatest := isLatest_zero _
  isLatest_before := isLatest_zero _
  current := rfl
  previous := rfl
  sampledAt := by simp

/-- A sample moves the last one back, if there is one. -/
theorem Tracks.or_eq {s : State Rat} {last before : Option ℕ} (h : Tracks g calls i s last before) :
    s.current.or s.previous = last.map fun j => (calls j).input := by
  rw [h.current, h.previous]
  cases last with
  | some j => rfl
  | none =>
    have none_before : before = none := h.isLatest_before.unique (isLatest_zero _)
    rw [none_before]
    rfl

theorem Tracks.step {s : State Rat} {last before : Option ℕ} (h : Tracks g calls i s last before)
    (hperiod : 0 < g.period) (hascend : Monotone fun i => (calls i).time) :
    ∃ last before,
      Tracks g calls (i + 1) (step g.period (calls i).time s (calls i).input).2 last before := by
  have scheduled := h.scheduled.tick hperiod hascend
  have latest := h.scheduled.isLatest_succ h.isLatest
  cases hdue : s.clock.isDue (calls i).time with
  | true =>
    rw [hdue, if_pos rfl] at latest
    refine ⟨some i, last, ?_⟩
    have memory : (FirstOrderHold.step g.period (calls i).time s (calls i).input).2 =
        ⟨(s.clock.tick (calls i).time).2, some (calls i).input, s.current.or s.previous,
          (calls i).time⟩ := by
      simp [FirstOrderHold.step, next, SampleClock.fst_tick, hdue]
    rw [memory]
    exact ⟨scheduled, latest, h.isLatest, rfl, h.or_eq, fun j hj => by rw [Option.some.inj hj]⟩
  | false =>
    rw [hdue, if_neg Bool.false_ne_true] at latest
    refine ⟨last, before, ?_⟩
    have memory : (FirstOrderHold.step g.period (calls i).time s (calls i).input).2 =
        { s with clock := (s.clock.tick (calls i).time).2 } := by
      simp [FirstOrderHold.step, next, SampleClock.fst_tick, hdue]
    rw [memory]
    exact ⟨scheduled, latest, h.isLatest_before, h.current, h.previous, h.sampledAt⟩

/-- With the samples of the last two due calls in its memory, a hold gives the line through them. -/
theorem Tracks.value_eq {s : State Rat} {last before : Option ℕ} {n : ℕ}
    (h : Tracks g calls n s last before) (i : ℕ) :
    value g.period (calls i).time s (calls i).input = line g calls i last before := by
  unfold value line
  rw [h.current, h.previous]
  cases last with
  | none => rfl
  | some j =>
    cases before with
    | none => rfl
    | some j' =>
      simp only [Option.map_some, h.sampledAt j rfl]
      ring

/-- At each call, a hold gives the line through the inputs of the last two due calls. -/
theorem exists_latest_outputAt (hperiod : 0 < g.period)
    (hascend : Monotone fun i => (calls i).time) (i : ℕ) :
    ∃ last before, IsLatest (g.Due calls) (i + 1) last ∧
      IsLatest (g.Due calls) (last.getD 0) before ∧
      Block.outputAt (step g.period) ⟨g.clock, none, none, g.start⟩ calls i =
        line g calls i last before := by
  obtain ⟨last, before, tracks⟩ := Block.memoryAt_invariant (f := step g.period)
    (fun i s => ∃ last before, Tracks g calls i s last before)
    ⟨none, none, tracks_start hperiod calls⟩
    (fun _ _ ⟨_, _, h⟩ => h.step hperiod hascend) (i + 1)
  exact ⟨last, before, tracks.isLatest, tracks.isLatest_before, tracks.value_eq i⟩

theorem outputAt_eq_line (hperiod : 0 < g.period) (hascend : Monotone fun i => (calls i).time)
    {last before : Option ℕ} (hlast : IsLatest (g.Due calls) (i + 1) last)
    (hbefore : IsLatest (g.Due calls) (last.getD 0) before) :
    Block.outputAt (step g.period) ⟨g.clock, none, none, g.start⟩ calls i =
      line g calls i last before := by
  obtain ⟨last', before', hlast', hbefore', hout⟩ := exists_latest_outputAt hperiod hascend i
  obtain rfl := hlast'.unique hlast
  obtain rfl := hbefore'.unique hbefore
  exact hout

end FirstOrderHold

/-! ## Instants that are met -/

/-- The call `f` is at an instant, and from there on so is some call at each instant that comes up
in the first `n` calls. -/
structure Grid.Met (g : Grid Rat) (calls : ℕ → Call Rat Rat) (f n : ℕ) : Prop where
  first : g.IsInstant (calls f).time
  exists_call : ∀ x, g.IsInstant x → (calls f).time ≤ x → ∀ i < n, x ≤ (calls i).time →
    ∃ j, (calls j).time = x

/-- The first call at an instant is the first one from it on. -/
theorem isLeast_of_isLeast_eq (hascend : Monotone fun i => (calls i).time)
    (hj : IsLeast {j | (calls j).time = x} j) : IsLeast {j | x ≤ (calls j).time} j := by
  obtain ⟨heq, hfirst⟩ := hj
  have heq : (calls j).time = x := heq
  refine ⟨heq.ge, fun k hk => ?_⟩
  by_contra hlt
  have late : (calls k).time ≤ x := heq ▸ hascend (not_le.1 hlt).le
  exact hlt (hfirst (le_antisymm late hk))

/-- Until a period after it, the first sample is the only one. -/
theorem outputAt_eq_first (hperiod : 0 < g.period) (hascend : Monotone fun i => (calls i).time)
    (hf : IsLeast {j | g.Due calls j} f) (hx : g.IsInstant (calls f).time) (hfi : f ≤ i)
    (hshort : (calls i).time < (calls f).time + g.period) :
    Block.outputAt (FirstOrderHold.step g.period) ⟨g.clock, none, none, g.start⟩ calls i =
      (calls f).input := by
  have last : IsLatest (g.Due calls) (i + 1) (some f) :=
    g.isLatest_of_first hperiod hascend hx (hf.1.isLeast_time hascend) (Nat.lt_succ_of_le hfi)
      fun m hm => (hascend (Nat.le_of_lt_succ hm)).trans_lt hshort
  have before : IsLatest (g.Due calls) f none :=
    fun j hj hdue => absurd (hf.2 hdue) (not_le.2 hj)
  exact FirstOrderHold.outputAt_eq_line hperiod hascend last before

/-- Where the last instant and the one before it have calls, the first calls there are the last two
due ones. -/
theorem outputAt_eq_through (hperiod : 0 < g.period) (hascend : Monotone fun i => (calls i).time)
    (hx : g.IsInstant x) (hx' : g.IsInstant (x - g.period))
    (hj : IsLeast {j | (calls j).time = x} j)
    (hj' : IsLeast {j | (calls j).time = x - g.period} j')
    (hxi : x ≤ (calls i).time) (hix : (calls i).time < x + g.period) :
    Block.outputAt (FirstOrderHold.step g.period) ⟨g.clock, none, none, g.start⟩ calls i =
      (calls j).input + ((calls j).input - (calls j').input) * ((calls i).time - x) / g.period := by
  have first := isLeast_of_isLeast_eq hascend hj
  have first' := isLeast_of_isLeast_eq hascend hj'
  have time : (calls j).time = x := hj.1
  have earlier (m : ℕ) (hm : m < j) : (calls m).time < x - g.period + g.period := by
    rw [sub_add_cancel]
    by_contra hlate
    exact absurd (first.2 (not_lt.1 hlate)) (not_le.2 hm)
  have order : j' < j := by
    by_contra hle
    have back : (calls j).time ≤ x - g.period := (hascend (not_lt.1 hle)).trans_eq hj'.1
    linarith
  have last : IsLatest (g.Due calls) (i + 1) (some j) :=
    g.isLatest_of_first hperiod hascend hx first (Nat.lt_succ_of_le (first.2 hxi))
      fun m hm => (hascend (Nat.le_of_lt_succ hm)).trans_lt hix
  have before : IsLatest (g.Due calls) j (some j') :=
    g.isLatest_of_first hperiod hascend hx' first' order earlier
  rw [FirstOrderHold.outputAt_eq_line hperiod hascend last before]
  simp only [FirstOrderHold.line, time]

/-- Two samples on a line give the line back. -/
theorem outputAt_eq_affine (hperiod : 0 < g.period) (hascend : Monotone fun i => (calls i).time)
    (hx : g.IsInstant x) (hx' : g.IsInstant (x - g.period))
    (hj : IsLeast {j | (calls j).time = x} j)
    (hj' : IsLeast {j | (calls j).time = x - g.period} j')
    (hxi : x ≤ (calls i).time) (hix : (calls i).time < x + g.period) {a b : Rat}
    (haffine : ∀ m ≤ i, (calls m).input = a + b * (calls m).time) :
    Block.outputAt (FirstOrderHold.step g.period) ⟨g.clock, none, none, g.start⟩ calls i =
      a + b * (calls i).time := by
  have reached : x - g.period ≤ (calls i).time := by linarith
  have hji : j ≤ i := (isLeast_of_isLeast_eq hascend hj).2 hxi
  have hji' : j' ≤ i := (isLeast_of_isLeast_eq hascend hj').2 reached
  have time : (calls j).time = x := hj.1
  have time' : (calls j').time = x - g.period := hj'.1
  rw [outputAt_eq_through hperiod hascend hx hx' hj hj' hxi hix, haffine j hji, haffine j' hji',
    time, time']
  field_simp
  ring

/-- After the first sample, the last instant and the one before it have first calls. -/
theorem Grid.Met.exists_isLeast (h : g.Met calls f n) (hperiod : 0 < g.period)
    (hstart : g.start ≤ (calls f).time) (hx : g.IsInstant x) (hfx : (calls f).time < x) (hi : i < n)
    (hxi : x ≤ (calls i).time) :
    g.IsInstant (x - g.period) ∧ ∃ j j', IsLeast {j | (calls j).time = x} j ∧
      IsLeast {j | (calls j).time = x - g.period} j' := by
  have hx' : g.IsInstant (x - g.period) := hx.sub_period (hstart.trans_lt hfx)
  have between : (calls f).time ≤ x - g.period := by
    have := h.first.add_period_le hx hperiod hfx
    linarith
  have reached : x - g.period ≤ (calls i).time := by linarith
  exact ⟨hx', _, _, Nat.isLeast_find (h.exists_call x hx hfx.le i hi hxi),
    Nat.isLeast_find (h.exists_call _ hx' between i hi reached)⟩

/-- **The line through the last two instants.**  A hold passes its input until the first sample.  If
that falls on an instant, and each instant from there on has a call, then until the next instant it
holds that sample, and from then on it gives the line through the samples at the last two instants,
which are the inputs of the first calls there.  So it reproduces an input on a line from the second
sample on. -/
theorem lines_through_instants (hperiod : 0 < g.period) :
    ∃ hold, firstOrderHold g = .ok hold ∧
      ∀ (began : Option Rat) (calls : ℕ → Call Rat Rat), (Monotone fun i => (calls i).time) →
        ∃ y : ℕ → Rat,
          (∀ n, hold.Gives began ((List.range n).map calls) ((List.range n).map y)) ∧
          (∀ i, (∀ j ≤ i, ¬ g.Due calls j) → y i = (calls i).input) ∧
          ∀ f n, IsLeast {j | g.Due calls j} f → g.Met calls f n →
            (∀ i < n, f ≤ i → (calls i).time < (calls f).time + g.period →
              y i = (calls f).input) ∧
            (∀ i < n, ∀ x, g.IsInstant x → (calls f).time < x → x ≤ (calls i).time →
              (calls i).time < x + g.period →
                ∃ j j', IsLeast {j | (calls j).time = x} j ∧
                  IsLeast {j | (calls j).time = x - g.period} j' ∧
                  y i = (calls j).input +
                    ((calls j).input - (calls j').input) * ((calls i).time - x) / g.period) ∧
            ∀ a b : Rat, (∀ i < n, (calls i).input = a + b * (calls i).time) →
              ∀ i < n, (calls f).time + g.period ≤ (calls i).time →
                y i = a + b * (calls i).time := by
  have accepted := And.intro hperiod (Scalar.isFinite_exact g.start)
  refine ⟨_, firstOrderHold_eq_ok_iff.2 ⟨accepted, rfl⟩, fun began calls hascend =>
    ⟨_, Block.timed_stepsAs.gives_range began calls, ?_, ?_⟩⟩
  · intro i hnone
    exact FirstOrderHold.outputAt_eq_line hperiod hascend (isLatest_succ_none_iff.2 hnone)
      (isLatest_zero _)
  intro f n hf hmet
  have started : g.start ≤ (calls f).time := hf.1.start_le hperiod
  refine ⟨fun i _ => outputAt_eq_first hperiod hascend hf hmet.first, ?_, ?_⟩
  · intro i hi x hx hfx hxi hix
    obtain ⟨hx', j, j', hj, hj'⟩ := hmet.exists_isLeast hperiod started hx hfx hi hxi
    exact ⟨j, j', hj, hj', outputAt_eq_through hperiod hascend hx hx' hj hj' hxi hix⟩
  · intro a b haffine i hi hsecond
    obtain ⟨x, hx, hxi, hix⟩ := g.exists_last_instant hperiod (t := (calls i).time) (by linarith)
    have hfx : (calls f).time < x := by linarith
    obtain ⟨hx', j, j', hj, hj'⟩ := hmet.exists_isLeast hperiod started hx hfx hi hxi
    exact outputAt_eq_affine hperiod hascend hx hx' hj hj' hxi hix
      fun m hm => haffine m (hm.trans_lt hi)

/-- A first sample at the second instant, with a call before it and two calls at the third. -/
theorem lines_through_instants_late :
    let calls : ℕ → Call Rat Rat := fun i =>
      [⟨0, 7⟩, ⟨2, 1⟩, ⟨5 / 2, 9⟩, ⟨3, 4⟩, ⟨3, 8⟩].getD i ⟨7 / 2, 0⟩
    ∃ hold, firstOrderHold ⟨1, 1⟩ = .ok hold ∧
      hold.Gives none ((List.range 6).map calls) [7, 1, 1, 4, 4, 11 / 2] := by
  intro calls
  let g : Grid Rat := ⟨1, 1⟩
  have ascending : Monotone fun i => (calls i).time := by
    refine monotone_nat_of_le_succ fun i => ?_
    match i with
    | 0 | 1 | 2 | 3 | 4 => norm_num [calls]
    | i + 5 => simp [calls]
  obtain ⟨hold, built, run⟩ := lines_through_instants (g := g) one_pos
  obtain ⟨y, gives, passes, lines⟩ := run none calls ascending
  have early : ¬ g.Due calls 0 := fun h => absurd (h.start_le one_pos) (by decide +kernel)
  have due : IsLeast {j | g.Due calls j} 1 := by
    refine ⟨⟨0, by decide +kernel, fun _ => by decide +kernel⟩, fun j hj => ?_⟩
    by_contra hlt
    obtain rfl : j = 0 := by omega
    exact early hj
  have upper : ∀ i < 6, (calls i).time ≤ 7 / 2 := by decide +kernel
  have met : g.Met calls 1 6 := by
    refine ⟨⟨1, by decide +kernel⟩, ?_⟩
    rintro x ⟨k, rfl⟩ hfrom i hi hreached
    have hfrom : (2 : Rat) ≤ 1 + k * 1 := hfrom
    have hreached : 1 + k * 1 ≤ (7 / 2 : Rat) := hreached.trans (upper i hi)
    have low : 1 ≤ k := by exact_mod_cast (by linarith : (1 : Rat) ≤ k)
    have high : k < 3 := by exact_mod_cast (by linarith : (k : Rat) < 3)
    obtain rfl | rfl : k = 1 ∨ k = 2 := by omega
    · exact ⟨1, by decide +kernel⟩
    · exact ⟨3, by decide +kernel⟩
  obtain ⟨held, goes, -⟩ := lines 1 6 due met
  have first (j : ℕ) (hbefore : ∀ k < j, (calls k).time ≠ (calls j).time) :
      IsLeast {k | (calls k).time = (calls j).time} j :=
    ⟨rfl, fun k hk => not_lt.1 fun hlt => hbefore k hlt hk⟩
  -- the first calls at the last two instants are those with the inputs 1 and 4
  have output (i : ℕ) (hi : i < 6) (hlow : 3 ≤ (calls i).time) (hhigh : (calls i).time < 3 + 1) :
      y i = 4 + (4 - 1) * ((calls i).time - 3) / 1 := by
    obtain ⟨j, j', hj, hj', hy⟩ :=
      goes i hi 3 ⟨2, by decide +kernel⟩ (by decide +kernel) hlow hhigh
    have last : j = 3 := hj.unique (first 3 (by decide +kernel))
    have second : (calls 1).time = 3 - g.period := by decide +kernel
    have before : j' = 1 := hj'.unique (second ▸ first 1 (by decide +kernel))
    rw [hy, last, before]
    rfl
  have y₀ : y 0 = 7 := passes 0 fun j hj => by
    obtain rfl := Nat.le_zero.1 hj
    exact early
  have y₁ : y 1 = 1 := held 1 (by omega) le_rfl (by decide +kernel)
  have y₂ : y 2 = 1 := held 2 (by omega) (by omega) (by decide +kernel)
  have y₃ := output 3 (by omega) (by decide +kernel) (by decide +kernel)
  have y₄ := output 4 (by omega) (by decide +kernel) (by decide +kernel)
  have y₅ := output 5 (by omega) (by decide +kernel) (by decide +kernel)
  have outputs : (List.range 6).map y = [7, 1, 1, 4, 4, 11 / 2] := by
    simp only [List.range_succ, List.range_zero, List.nil_append, List.cons_append, List.map_cons,
      List.map_nil, y₀, y₁, y₂, y₃, y₄, y₅]
    decide +kernel
  exact ⟨hold, built, outputs ▸ gives 6⟩

end ControlBlocks.Sampling

import ControlBlocks.Proofs.Calls.Delays
import ControlBlocks.Proofs.Calls.Stretches
import Mathlib.Algebra.BigOperators.Group.Finset.Basic

/-!
# Elapsed time

What the two timers give, said by the inputs and the times of the calls.

* `Timer.memoryAt_succ`, `Timer.outputAt_eq` — a timer on a stretch of inputs;
* `Timer.unbroken_time` — it gives the time since that began, where the inputs are true;
* `Timer.Accumulating.total` — the times between two calls that count, all since the latest reset;
* `Timer.Accumulating.memoryAt_eq` — they are the total in the memory;
* `Timer.Accumulating.total_since_reset` — an accumulating timer gives it, and has passed just if
  it reaches the threshold.
-/

set_option autoImplicit false

namespace ControlBlocks.Timer

/-! ## Without a break -/

section Unbroken

variable {calls : ℕ → Call Rat Bool} {s i : ℕ}

/-- After a call, on a stretch of inputs that began at the call `s`, a timer remembers when that
was if the inputs are true, and nothing if they are false. -/
theorem memoryAt_succ (threshold : Rat) (hascend : Monotone fun i => (calls i).time)
    (h : Stretch (fun j => (calls j).input) s i) :
    Block.memoryAt (step threshold) (initial threshold) calls (i + 1) =
      if (calls i).input then
        ⟨some (calls s).time, decide (threshold ≤ (calls i).time - (calls s).time)⟩
      else ⟨none, false⟩ := by
  induction h using Stretch.induction with
  | first =>
    cases hu : (calls 0).input with
    | false => simp [Block.memoryAt, step, hu]
    | true => simp [Block.memoryAt, initial, step_starts, hu]
  | goesOn s i h hv ih =>
    have hv : (calls (i + 1)).input = (calls i).input := hv
    rw [Block.memoryAt, ih, hv]
    cases hu : (calls i).input with
    | false => simp [step]
    | true =>
      -- the flag is kept once it is set, and the time it was set for only grows
      have later : (calls i).time - (calls s).time ≤ (calls (i + 1)).time - (calls s).time :=
        sub_le_sub_right (hascend (Nat.le_succ i)) _
      simp only [if_true, step_runs, Scalar.reached_or later]
  | turns s i h hv ih =>
    have hv : (calls (i + 1)).input = !(calls i).input := Bool.eq_not.2 hv
    rw [Block.memoryAt, ih, hv]
    cases hu : (calls i).input with
    | false => simp [step_starts]
    | true => simp [step]

/-- What a timer gives can be read off its new memory. -/
theorem fst_step (threshold now : Rat) (s : State Rat) (u : Bool) :
    (step threshold now s u).1 =
      ⟨((step threshold now s u).2.since.map (now - ·)).getD 0,
        (step threshold now s u).2.passed⟩ := by
  cases u with
  | false => rfl
  | true =>
    obtain ⟨since, passed⟩ := s
    cases since with
    | none => simp [step]
    | some since => simp [step]

theorem outputAt_eq (threshold : Rat) (hascend : Monotone fun i => (calls i).time)
    (h : Stretch (fun j => (calls j).input) s i) :
    Block.outputAt (step threshold) (initial threshold) calls i =
      if (calls i).input then
        ⟨(calls i).time - (calls s).time,
          decide (threshold ≤ (calls i).time - (calls s).time)⟩
      else ⟨0, false⟩ := by
  have memory := memoryAt_succ threshold hascend h
  rw [Block.memoryAt] at memory
  rw [Block.outputAt, fst_step, memory]
  cases (calls i).input with
  | false => rfl
  | true => rfl

/-- **The time without a break.**  While its input is false, a timer gives zero and has not passed.
While it is true, it gives the time since the first call of the unbroken run of true inputs, and it
has passed just if that time reaches the threshold, whatever the threshold is.  So neither goes back
in such a run. -/
theorem unbroken_time (threshold : Rat) :
    ∃ timer, block threshold = .ok timer ∧
      ∀ (began : Option Rat) (calls : ℕ → Call Rat Bool), (Monotone fun i => (calls i).time) →
        ∃ y : ℕ → Output Rat,
          (∀ n, timer.Gives began ((List.range n).map calls) ((List.range n).map y)) ∧
          (∀ i, (calls i).input = false → y i = ⟨0, false⟩) ∧
          (∀ i, (calls i).input = true → ∃ s, Stretch (fun j => (calls j).input) s i ∧
            (y i).elapsed = (calls i).time - (calls s).time ∧
            ((y i).passed = true ↔ threshold ≤ (y i).elapsed)) ∧
          ∀ j i, j ≤ i → (∀ m, j ≤ m → m ≤ i → (calls m).input = true) →
            (y j).elapsed ≤ (y i).elapsed ∧ ((y j).passed = true → (y i).passed = true) := by
  refine ⟨_, block_eq_ok_iff.2 ⟨Scalar.isFinite_exact threshold, rfl⟩, ?_⟩
  intro began calls hascend
  refine ⟨Block.outputAt (step threshold) (initial threshold) calls,
    Block.timed_stepsAs.gives_range began calls, ?off, ?on, ?grows⟩
  case off =>
    intro i hu
    obtain ⟨s, hs⟩ := exists_stretch (fun j => (calls j).input) i
    rw [outputAt_eq threshold hascend hs, hu]
    rfl
  case on =>
    intro i hu
    obtain ⟨s, hs⟩ := exists_stretch (fun j => (calls j).input) i
    refine ⟨s, hs, ?_⟩
    rw [outputAt_eq threshold hascend hs, hu]
    simp
  case grows =>
    intro j i hji htrue
    obtain ⟨s, hs⟩ := exists_stretch (fun j => (calls j).input) j
    have later : Stretch (fun j => (calls j).input) s i := by
      apply hs.extend hji
      intro m hjm hmi
      simp only [htrue m hjm hmi, htrue i hji le_rfl]
    have grown : (calls j).time - (calls s).time ≤ (calls i).time - (calls s).time :=
      sub_le_sub_right (hascend hji) _
    rw [outputAt_eq threshold hascend hs, outputAt_eq threshold hascend later,
      htrue j le_rfl hji, htrue i hji le_rfl]
    simp only [if_true, decide_eq_true_iff]
    exact ⟨grown, fun hpassed => hpassed.trans grown⟩

/-- A timer of two seconds that is interrupted in the third call. -/
theorem unbroken_time_interrupted :
    let calls : ℕ → Call Rat Bool := fun i => ⟨i, i != 2⟩
    ∃ (timer : Block Rat Bool (State Rat) (Output Rat)) (y : ℕ → Output Rat),
      block 2 = .ok timer ∧ timer.Gives none ((List.range 6).map calls) ((List.range 6).map y) ∧
      y 2 = ⟨0, false⟩ ∧ (y 4).passed = false ∧ (y 5).elapsed = 2 ∧ (y 5).passed = true ∧
      (y 3).elapsed ≤ (y 5).elapsed := by
  intro calls
  have ascending : Monotone fun i => (calls i).time := fun i j hij => Nat.cast_le.2 hij
  obtain ⟨timer, built, run⟩ := unbroken_time 2
  obtain ⟨y, gives, off, on, grows⟩ := run none calls ascending
  have kept (m : ℕ) (hm : 3 ≤ m) : (calls m).input = true := by
    have : m ≠ 2 := by omega
    simp [calls, this]
  have stretch (i : ℕ) (hi : 3 ≤ i) : Stretch (fun j => (calls j).input) 3 i :=
    ⟨hi, fun m hm _ => (kept m hm).trans (kept i hi).symm, .inr (by decide)⟩
  have told (i : ℕ) (hi : 3 ≤ i) :
      (y i).elapsed = i - 3 ∧ ((y i).passed = true ↔ 2 ≤ (y i).elapsed) := by
    obtain ⟨s, hs, hy⟩ := on i (kept i hi)
    obtain rfl := hs.unique (stretch i hi)
    exact hy
  obtain ⟨elapsed₄, passed₄⟩ := told 4 (by omega)
  obtain ⟨elapsed₅, passed₅⟩ := told 5 (by omega)
  rw [elapsed₄] at passed₄
  rw [elapsed₅] at passed₅
  refine ⟨timer, y, built, gives 6, off 2 rfl, ?_, ?_, ?_, ?_⟩
  · rw [Bool.eq_false_iff, ne_eq, passed₄]
    norm_num
  · rw [elapsed₅]
    norm_num
  · rw [passed₅]
    norm_num
  · exact (grows 3 5 (by omega) fun m hm _ => kept m hm).1

end Unbroken

/-! ## In all -/

namespace Accumulating

variable {calls : ℕ → Call Rat Input} {n m : ℕ}

/-- Of the first `n` calls, the time from the call before `m` to the call `m` counts: the input is
true at both, and all calls with a reset are earlier than both. -/
def Counts (calls : ℕ → Call Rat Input) (n m : ℕ) : Prop :=
  0 < m ∧ (∀ j < n, (calls j).input.reset = true → j < m - 1) ∧
    (calls (m - 1)).input.u = true ∧ (calls m).input.u = true

instance (calls : ℕ → Call Rat Input) (n m : ℕ) : Decidable (Counts calls n m) := by
  unfold Counts
  infer_instance

/-- The time that counts in the first `n` calls. -/
def total (calls : ℕ → Call Rat Input) (n : ℕ) : Rat :=
  ∑ m ∈ (Finset.range n).filter (Counts calls n), ((calls m).time - (calls (m - 1)).time)

/-- A call with a reset leaves nothing. -/
theorem total_succ_of_reset (h : (calls n).input.reset = true) : total calls (n + 1) = 0 := by
  have none_counts : ∀ m ∈ Finset.range (n + 1), ¬ Counts calls (n + 1) m := by
    rintro m hm ⟨-, hafter, -⟩
    have : n < m - 1 := hafter n (Nat.lt_succ_self n) h
    have := Finset.mem_range.1 hm
    omega
  rw [total, Finset.filter_false_of_mem none_counts, Finset.sum_empty]

/-- Any other call keeps what counted before. -/
theorem counts_succ_iff (h : (calls n).input.reset = false) :
    Counts calls (n + 1) m ↔ Counts calls n m := by
  unfold Counts
  rw [Nat.forall_lt_succ_right]
  simp [h]

theorem total_succ (h : (calls n).input.reset = false) :
    total calls (n + 1) =
      total calls n + if Counts calls n n then (calls n).time - (calls (n - 1)).time else 0 := by
  have kept : (Finset.range n).filter (Counts calls (n + 1)) =
      (Finset.range n).filter (Counts calls n) :=
    Finset.filter_congr fun m _ => counts_succ_iff h
  rw [total, Finset.range_add_one, Finset.filter_insert, kept]
  split
  · rename_i hcounts
    rw [if_pos ((counts_succ_iff h).1 hcounts), Finset.sum_insert (by simp), add_comm]
    rfl
  · rename_i hcounts
    rw [if_neg (mt (counts_succ_iff h).2 hcounts), add_zero]
    rfl

/-- Without a reset, the total does not go back. -/
theorem total_le_succ (hascend : Monotone fun i => (calls i).time)
    (h : (calls n).input.reset = false) : total calls n ≤ total calls (n + 1) := by
  rw [total_succ h, le_add_iff_nonneg_right]
  split
  · exact sub_nonneg.2 (hascend (Nat.sub_le n 1))
  · exact le_rfl

/-- A call whose input is true counts if that of the call before is, and it is no reset. -/
theorem counts_self_iff (hu : (calls (n + 1)).input.u = true) :
    Counts calls (n + 1) (n + 1) ↔
      (calls n).input.u = true ∧ (calls n).input.reset = false := by
  unfold Counts
  rw [Nat.forall_lt_succ_right]
  simp +contextual [hu, and_comm]

/-- When the last of the first `n` calls was, if its input is true and it is no reset. -/
def since (calls : ℕ → Call Rat Input) : ℕ → Option Rat
  | 0 => none
  | n + 1 => if (calls n).input.u && !(calls n).input.reset then some (calls n).time else none

theorem since_succ (calls : ℕ → Call Rat Input) (n : ℕ) :
    since calls (n + 1) =
      if (calls n).input.u && !(calls n).input.reset then some (calls n).time else none := rfl

/-- A call whose input is true adds the time since then. -/
theorem total_succ_of_u (hreset : (calls n).input.reset = false)
    (hu : (calls n).input.u = true) :
    total calls (n + 1) =
      total calls n + ((since calls n).map ((calls n).time - ·)).getD 0 := by
  rw [total_succ hreset]
  cases n with
  | zero => simp [Counts, since]
  | succ n =>
    by_cases hruns : (calls n).input.u = true ∧ (calls n).input.reset = false
    · simp [counts_self_iff hu, since_succ, hruns]
    · have stopped : since calls (n + 1) = none := by
        simpa [since_succ] using hruns
      rw [stopped, if_neg (mt (counts_self_iff hu).1 hruns)]
      rfl

/-! ### The memory -/

theorem next_of_reset (threshold now : Rat) (s : State Rat) {d : Input} (h : d.reset = true) :
    next threshold now s d = initial threshold := by
  simp [next, h]

theorem next_of_not_u (threshold now : Rat) (s : State Rat) {d : Input} (hreset : d.reset = false)
    (hu : d.u = false) : next threshold now s d = { s with since := none } := by
  simp [next, hreset, hu]

theorem next_of_u (threshold now total : Rat) (since : Option Rat) (passed : Bool) {d : Input}
    (hreset : d.reset = false) (hu : d.u = true) :
    next threshold now ⟨total, since, passed⟩ d =
      ⟨total + (since.map (now - ·)).getD 0, some now,
        passed || decide (threshold ≤ total + (since.map (now - ·)).getD 0)⟩ := by
  cases since with
  | none => simp [next, hreset, hu]
  | some since => simp [next, hreset, hu]

/-- Before each call, the memory holds the total, and whether it reaches the threshold. -/
theorem memoryAt_eq (threshold : Rat) (hascend : Monotone fun i => (calls i).time) (n : ℕ) :
    Block.memoryAt (step threshold) (initial threshold) calls n =
      ⟨total calls n, since calls n, decide (threshold ≤ total calls n)⟩ := by
  induction n with
  | zero => simp [Block.memoryAt, initial, total, since]
  | succ n ih =>
    rw [Block.memoryAt, ih]
    show next threshold (calls n).time _ (calls n).input = _
    cases hreset : (calls n).input.reset with
    | true =>
      rw [next_of_reset _ _ _ hreset, total_succ_of_reset hreset]
      simp [initial, since_succ, hreset]
    | false =>
      cases hu : (calls n).input.u with
      | false =>
        have paused : ¬ Counts calls n n := by simp [Counts, hu]
        rw [next_of_not_u _ _ _ hreset hu, total_succ hreset, if_neg paused]
        simp [since_succ, hu]
      | true =>
        -- the only calls at which the flag is not just kept are those at which the total grows
        have grown := total_le_succ hascend hreset
        rw [next_of_u _ _ _ _ _ hreset hu, ← total_succ_of_u hreset hu, Scalar.reached_or grown]
        simp [since_succ, hreset, hu]

/-- **The time in all.**  An accumulating timer gives, at each call, the sum of the times between
two calls at which the input is true, as far as both come after the latest reset.  In its memory,
from the start on and after every call, it has passed just if the total reaches the threshold. -/
theorem total_since_reset (threshold : Rat) :
    ∃ timer, accumulating threshold = .ok timer ∧
      ∀ (began : Option Rat) (calls : ℕ → Call Rat Input), (Monotone fun i => (calls i).time) →
        ∃ (y : ℕ → Output Rat) (s : ℕ → State Rat),
          (∀ n, timer.Runs (timer.start began) ((List.range n).map calls)
            ((List.range n).map y) (s n)) ∧
          (∀ i, (y i).elapsed = total calls (i + 1) ∧
            ((y i).passed = true ↔ threshold ≤ (y i).elapsed)) ∧
          ∀ n, ((s n).passed = true ↔ threshold ≤ (s n).total) := by
  refine ⟨_, accumulating_eq_ok_iff.2 ⟨Scalar.isFinite_exact threshold, rfl⟩, ?_⟩
  intro began calls hascend
  have memory := memoryAt_eq threshold hascend
  refine ⟨Block.outputAt (step threshold) (initial threshold) calls,
    Block.memoryAt (step threshold) (initial threshold) calls,
    Block.timed_stepsAs.runs_range (initial threshold) calls, ?_, ?_⟩
  · intro i
    have output : Block.outputAt (step threshold) (initial threshold) calls i =
        ⟨(Block.memoryAt (step threshold) (initial threshold) calls (i + 1)).total,
          (Block.memoryAt (step threshold) (initial threshold) calls (i + 1)).passed⟩ := rfl
    rw [output, memory (i + 1)]
    simp
  · intro n
    rw [memory n]
    simp

/-- A pause in the third call, and two resets while the input stays true. -/
theorem total_since_reset_paused :
    let calls : ℕ → Call Rat Input := fun i => ⟨i, i != 2, i == 5 || i == 6⟩
    ∃ (timer : Block Rat Input (State Rat) (Output Rat)) (y : ℕ → Output Rat),
      accumulating 2 = .ok timer ∧
      timer.Gives none ((List.range 10).map calls) ((List.range 10).map y) ∧
      (List.range 10).map (fun i => (y i).elapsed) = [0, 1, 1, 1, 2, 0, 0, 0, 1, 2] ∧
      (List.range 10).map (fun i => (y i).passed) =
        [false, false, false, false, true, false, false, false, false, true] := by
  intro calls
  have ascending : Monotone fun i => (calls i).time := fun i j hij => Nat.cast_le.2 hij
  obtain ⟨timer, built, run⟩ := total_since_reset 2
  obtain ⟨y, s, runs, told, -⟩ := run none calls ascending
  have elapsed : (fun i => (y i).elapsed) = fun i => total calls (i + 1) :=
    funext fun i => (told i).1
  have passed : (fun i => (y i).passed) = fun i => decide (2 ≤ total calls (i + 1)) := by
    funext i
    rw [Bool.eq_iff_iff, (told i).2, (told i).1, decide_eq_true_iff]
  refine ⟨timer, y, built, ⟨s 10, runs 10⟩, ?_, ?_⟩
  · rw [elapsed]
    decide +kernel
  · rw [passed]
    decide +kernel

end Accumulating

end ControlBlocks.Timer

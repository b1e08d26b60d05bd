import ControlBlocks.Proofs.Calls.MovingMean
import ControlBlocks.Proofs.Exact.Scalar
import Mathlib.Algebra.Order.BigOperators.Group.Multiset
import Mathlib.Tactic.NormNum

/-!
# The inputs of the last seconds

What a moving average remembers and gives, said by the times and the inputs of the calls.

* `recent` — the calls that are not too old, in their order;
* `dropWhile_eq_filter` — where times ascend, those that are too old come first;
* `extend_recent` — one evaluation keeps the recent calls, and adds its own;
* `inputs`, `mean_eq`, `mean_mem` — the mean of the inputs is that of arithmetic, and lies between
  the least and the greatest of them;
* `averages_recent_inputs` — the same of the block.
-/

set_option autoImplicit false

namespace ControlBlocks.MovingAverage

variable {calls : ℕ → Call Rat Rat} {delta bound later : Rat} {n : ℕ} {window : List (Rat × Rat)}

/-! ## The window -/

/-- The first `n` calls, each with its time and its input, without those from before a time. -/
def recent (calls : ℕ → Call Rat Rat) (bound : Rat) (n : ℕ) : List (Rat × Rat) :=
  ((List.range n).filter fun m => decide (bound ≤ (calls m).time)).map fun m =>
    ((calls m).time, (calls m).input)

/-- The latest call is recent, if it is not too old itself. -/
theorem recent_succ (h : bound ≤ (calls n).time) :
    recent calls bound (n + 1) = recent calls bound n ++ [((calls n).time, (calls n).input)] := by
  simp [recent, List.range_succ, h]

theorem ascending_recent (hascend : Monotone fun i => (calls i).time) (bound : Rat) (n : ℕ) :
    (recent calls bound n).Pairwise fun p q => p.1 ≤ q.1 := by
  have ordered : ((List.range n).filter fun m => decide (bound ≤ (calls m).time)).Pairwise
      (· ≤ ·) := List.pairwise_le_range.filter _
  exact List.pairwise_map.2 (ordered.imp fun hij => hascend hij)

/-- Where times ascend, all that is too old comes first, so that only the front need be looked
at. -/
theorem dropWhile_eq_filter (h : window.Pairwise fun p q => p.1 ≤ q.1) (bound : Rat) :
    window.dropWhile (fun (t, _) => decide (t < bound)) =
      window.filter fun (t, _) => decide (bound ≤ t) := by
  induction window with
  | nil => rfl
  | cons p window ih =>
    obtain ⟨first, rest⟩ := List.pairwise_cons.1 h
    by_cases hold : p.1 < bound
    · simp [hold, not_le.2 hold, ih rest]
    · have fresh : ∀ q ∈ p :: window, bound ≤ q.1 := by
        intro q hq
        obtain rfl | hq := List.mem_cons.1 hq
        · exact not_lt.1 hold
        · exact (not_lt.1 hold).trans (first q hq)
      have all : (p :: window).filter (fun (t, _) => decide (bound ≤ t)) = p :: window :=
        List.filter_eq_self.2 fun q hq => decide_eq_true (fresh q hq)
      rw [all]
      simp [hold]

/-- What has been forgotten would be too old at any later time. -/
theorem dropWhile_recent (hascend : Monotone fun i => (calls i).time) (hlater : bound ≤ later)
    (n : ℕ) :
    (recent calls bound n).dropWhile (fun (t, _) => decide (t < later)) =
      recent calls later n := by
  rw [dropWhile_eq_filter (ascending_recent hascend bound n), recent, List.filter_map,
    List.filter_filter, recent]
  congr 1
  refine List.filter_congr fun m _ => ?_
  simpa using fun h => hlater.trans h

theorem extend_recent (hdelta : 0 < delta) (hascend : Monotone fun i => (calls i).time)
    (hbound : bound ≤ (calls n).time - delta) :
    extend delta (calls n).time (recent calls bound n) (calls n).input =
      recent calls ((calls n).time - delta) (n + 1) := by
  rw [extend_eq hdelta, dropWhile_recent hascend hbound, recent_succ]
  linarith

/-- After a call, the window holds the calls of the last seconds. -/
theorem memoryAt_succ (hdelta : 0 < delta) (hascend : Monotone fun i => (calls i).time) (n : ℕ) :
    Block.memoryAt (step delta) ⟨[]⟩ calls (n + 1) =
      ⟨recent calls ((calls n).time - delta) (n + 1)⟩ := by
  rw [Block.memoryAt, step_eq hdelta]
  induction n with
  | zero => exact congrArg State.mk (extend_recent hdelta hascend le_rfl)
  | succ n ih =>
    -- the window was cut at an earlier time
    have earlier : (calls n).time - delta ≤ (calls (n + 1)).time - delta :=
      sub_le_sub_right (hascend (Nat.le_succ n)) delta
    rw [Block.memoryAt, step_eq hdelta, ih]
    exact congrArg State.mk (extend_recent hdelta hascend earlier)

/-! ## The mean -/

/-- The inputs in a window. -/
def inputs (window : List (Rat × Rat)) : List Rat := window.map (·.2)

theorem mean_eq (window : List (Rat × Rat)) :
    mean window = (inputs window : Multiset Rat).sum / window.length := by
  rw [mean, Scalar.sum_eq_sum_coe, Int.cast_natCast, inputs]

theorem mean_mem (h : inputs window ≠ []) :
    (inputs window).min h ≤ mean window ∧ mean window ≤ (inputs window).max h := by
  have count : (0 : Rat) < window.length := by
    exact_mod_cast List.length_pos_iff.2 fun hnil => h (congrArg inputs hnil)
  have length : Multiset.card (inputs window : Multiset Rat) = window.length := by simp [inputs]
  have least : window.length • (inputs window).min h ≤ (inputs window : Multiset Rat).sum := by
    rw [← length]
    exact Multiset.card_nsmul_le_sum fun u hu => List.min_le_of_mem hu
  have greatest : (inputs window : Multiset Rat).sum ≤ window.length • (inputs window).max h := by
    rw [← length]
    exact Multiset.sum_le_card_nsmul _ _ fun u hu => List.le_max_of_mem hu
  rw [nsmul_eq_mul, mul_comm] at least greatest
  rw [mean_eq, le_div_iff₀ count, div_le_iff₀ count]
  exact ⟨least, greatest⟩

/-- **The mean of the last seconds.**  After each call, the window holds the calls up to it that are
not older than `delta`, each once and in their order.  It is never empty, and the output is the mean
of the inputs in it, so that it lies between the least and the greatest of them. -/
theorem averages_recent_inputs (hdelta : 0 < delta) :
    ∃ average, block delta = .ok average ∧
      ∀ (began : Option Rat) (calls : ℕ → Call Rat Rat), (Monotone fun i => (calls i).time) →
        ∃ (y : ℕ → Rat) (s : ℕ → State Rat),
          (∀ n, average.Runs (average.start began) ((List.range n).map calls)
            ((List.range n).map y) (s n)) ∧
          ∀ i, (s (i + 1)).window = recent calls ((calls i).time - delta) (i + 1) ∧
            ∃ filled : inputs (s (i + 1)).window ≠ [],
              y i = (inputs (s (i + 1)).window : Multiset Rat).sum / (s (i + 1)).window.length ∧
              (inputs (s (i + 1)).window).min filled ≤ y i ∧
              y i ≤ (inputs (s (i + 1)).window).max filled := by
  refine ⟨_, block_eq_ok_iff.2 ⟨hdelta, rfl⟩, ?_⟩
  intro began calls hascend
  let s := Block.memoryAt (step delta) ⟨[]⟩ calls
  refine ⟨Block.outputAt (step delta) ⟨[]⟩ calls, s, Block.timed_stepsAs.runs_range _ calls, ?_⟩
  intro i
  have window : (s (i + 1)).window = recent calls ((calls i).time - delta) (i + 1) :=
    congrArg State.window (memoryAt_succ hdelta hascend i)
  have output : Block.outputAt (step delta) ⟨[]⟩ calls i = mean (s (i + 1)).window := by
    simp only [Block.outputAt, s, Block.memoryAt, step_eq hdelta]
  have recently : (calls i).time - delta ≤ (calls i).time := sub_le_self _ hdelta.le
  have filled : inputs (s (i + 1)).window ≠ [] := by
    rw [window, recent_succ recently]
    simp [inputs]
  rw [output]
  exact ⟨window, filled, mean_eq _, mean_mem filled⟩

/-- Steps that grow longer: the third call is just recent enough for the fourth, and the fifth one
is left alone. -/
theorem averages_recent_inputs_growing :
    let calls : ℕ → Call Rat Rat := fun i => ⟨i ^ 2, 10 - 2 * i⟩
    ∃ (average : Block Rat Rat (State Rat) Rat) (y : ℕ → Rat) (s : ℕ → State Rat),
      block 5 = .ok average ∧
      (∀ n, average.Runs (average.start none) ((List.range n).map calls) ((List.range n).map y)
        (s n)) ∧
      (s 4).window = [(4, 6), (9, 4)] ∧ y 3 = 5 ∧ (s 5).window = [(16, 2)] ∧ y 4 = 2 := by
  intro calls
  have ascending : Monotone fun i => (calls i).time := by
    intro i j hij
    exact pow_le_pow_left₀ (Nat.cast_nonneg i) (Nat.cast_le.2 hij) 2
  obtain ⟨average, built, run⟩ := averages_recent_inputs (by norm_num : (0 : Rat) < 5)
  obtain ⟨y, s, runs, told⟩ := run none calls ascending
  obtain ⟨window₄, -, mean₃, -⟩ := told 3
  obtain ⟨window₅, -, mean₄, -⟩ := told 4
  have recent₄ : recent calls ((calls 3).time - 5) 4 = [(4, 6), (9, 4)] := by decide +kernel
  have recent₅ : recent calls ((calls 4).time - 5) 5 = [(16, 2)] := by decide +kernel
  rw [window₄, recent₄] at mean₃
  rw [window₅, recent₅] at mean₄
  refine ⟨average, y, s, built, runs, window₄.trans recent₄, ?_, window₅.trans recent₅, ?_⟩
  · rw [mean₃]
    norm_num [inputs]
  · rw [mean₄]
    norm_num [inputs]

end ControlBlocks.MovingAverage

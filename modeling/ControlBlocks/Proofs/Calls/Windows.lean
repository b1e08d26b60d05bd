import ControlBlocks.Proofs.Binary64.Arithmetic
import ControlBlocks.Proofs.Calls.Basic
import ControlBlocks.Proofs.Calls.Stretches
import ControlBlocks.Sequential.Triggered
import Mathlib.Algebra.BigOperators.Intervals
import Mathlib.Algebra.Order.Interval.Set.SuccPred

/-!
# Windows that a trigger begins

What the triggered blocks give at each call, said by the inputs since the trigger last rose.

* `windowStart` — the call at which the window of a call begins;
* `isGreatest_windowStart` — it is the latest call that is the first one, or at which the trigger
  rises;
* `Ranked` — values that are compared as their ranks in a linear order;
* `maxStep_memoryAt`, `meanStep_memoryAt`, `sampleStep_memoryAt` — what the three blocks remember;
* `Selects`, `one_window` — what they give.
-/

set_option autoImplicit false

namespace ControlBlocks.Triggered

/-! ## The window -/

section Window

variable {trigger : ℕ → Bool} {i : ℕ}

/-- The call at which the window of the call `i` begins. -/
def windowStart (trigger : ℕ → Bool) : ℕ → ℕ
  | 0 => 0
  | i + 1 => if Rises trigger (i + 1) then i + 1 else windowStart trigger i

theorem windowStart_of_rises (h : Rises trigger i) : windowStart trigger i = i := by
  cases i with
  | zero => rfl
  | succ i => rw [windowStart, if_pos h]

theorem windowStart_succ_of_not_rises (h : ¬ Rises trigger (i + 1)) :
    windowStart trigger (i + 1) = windowStart trigger i := by
  rw [windowStart, if_neg h]

/-- A window begins at the latest call at which the trigger rises, or at the first call. -/
theorem isGreatest_windowStart (trigger : ℕ → Bool) (i : ℕ) :
    IsGreatest {m | m ≤ i ∧ (m = 0 ∨ Rises trigger m)} (windowStart trigger i) := by
  induction i with
  | zero => exact ⟨⟨le_rfl, .inl rfl⟩, fun m hm => hm.1⟩
  | succ i ih =>
    by_cases h : Rises trigger (i + 1)
    · rw [windowStart_of_rises h]
      exact ⟨⟨le_rfl, .inr h⟩, fun m hm => hm.1⟩
    · rw [windowStart_succ_of_not_rises h]
      refine ⟨⟨ih.1.1.trans (Nat.le_succ i), ih.1.2⟩, ?_⟩
      rintro m ⟨hm, hbegins⟩
      rcases hm.lt_or_eq with hlt | rfl
      · exact ih.2 ⟨Nat.le_of_lt_succ hlt, hbegins⟩
      · exact (h (hbegins.resolve_left (Nat.succ_ne_zero i))).elim

theorem windowStart_le (trigger : ℕ → Bool) (i : ℕ) : windowStart trigger i ≤ i :=
  (isGreatest_windowStart trigger i).1.1

/-- The first call begins a window in any case. -/
theorem rises_windowStart_iff :
    Rises trigger (windowStart trigger i) ↔ ∃ m ≤ i, Rises trigger m := by
  obtain ⟨⟨hle, hbegins⟩, hlast⟩ := isGreatest_windowStart trigger i
  constructor
  · exact fun h => ⟨_, hle, h⟩
  · rintro ⟨m, hm, hrises⟩
    rcases hbegins with hzero | h
    · have first : m ≤ windowStart trigger i := hlast ⟨hm, .inr hrises⟩
      rw [hzero] at first ⊢
      rwa [Nat.le_zero.1 first] at hrises
    · exact h

end Window

/-! ## Values with ranks -/

section Ranked

variable {α κ : Type} [Scalar α] [LinearOrder κ] {p : α → Prop} {rank : α → κ} {s : Set α}
  {a b : α}

/-- The values with the property `p` are compared as their ranks. -/
structure Ranked (p : α → Prop) (rank : α → κ) : Prop where
  lt_iff : ∀ {a b : α}, p a → p b → (a < b ↔ rank a < rank b)
  le_iff : ∀ {a b : α}, p a → p b → (a ≤ b ↔ rank a ≤ rank b)
  beq_self : ∀ {a : α}, p a → (a == a) = true

theorem ranked_exact : Ranked (fun _ : Rat => True) id where
  lt_iff := fun _ _ => Iff.rfl
  le_iff := fun _ _ => Iff.rfl
  beq_self := fun _ => beq_self_eq_true _

theorem ranked_finite : Ranked (fun x : Float => Scalar.isFinite x = true) Binary64.value where
  lt_iff := fun ha hb =>
    Binary64.lt_iff_value_lt ((Binary64.isFinite_iff _).1 ha) ((Binary64.isFinite_iff _).1 hb)
  le_iff := fun ha hb =>
    Binary64.le_iff_value_le ((Binary64.isFinite_iff _).1 ha) ((Binary64.isFinite_iff _).1 hb)
  beq_self := fun ha =>
    have number := ((Binary64.isFinite_iff _).1 ha).isNumber
    (Binary64.beq_iff _ _).2 ⟨number, number, rfl⟩

theorem Ranked.le_self (h : Ranked p rank) (ha : p a) : a ≤ a := (h.le_iff ha ha).2 le_rfl

/-- The larger of a greatest value and another one is the greatest of them all. -/
theorem Ranked.isGreatest_larger (h : Ranked p rank) (hs : ∀ x ∈ s, p x) (ha : IsGreatest s a)
    (hb : p b) : IsGreatest (insert b s) (Scalar.larger a b) := by
  have hpa : p a := hs a ha.1
  by_cases hlt : a < b
  · rw [Scalar.larger, if_pos hlt]
    refine ⟨Set.mem_insert b s, ?_⟩
    rintro x (rfl | hx)
    · exact h.le_self hb
    · have below : rank x ≤ rank a := (h.le_iff (hs x hx) hpa).1 (ha.2 hx)
      exact (h.le_iff (hs x hx) hb).2 (below.trans ((h.lt_iff hpa hb).1 hlt).le)
  · rw [Scalar.larger, if_neg hlt, if_pos (h.beq_self hpa)]
    refine ⟨Set.mem_insert_of_mem b ha.1, ?_⟩
    rintro x (rfl | hx)
    · exact (h.le_iff hb hpa).2 (not_lt.1 (mt (h.lt_iff hpa hb).2 hlt))
    · exact ha.2 hx

end Ranked

/-! ## The memories -/

section Calls

variable {α : Type} {calls : ℕ → Call α (Input α)} {i : ℕ}

/-- The triggers of the calls. -/
abbrev triggers (calls : ℕ → Call α (Input α)) : ℕ → Bool := fun i => (calls i).input.trigger

/-- The inputs in the window of the call `i`. -/
def window (calls : ℕ → Call α (Input α)) (i : ℕ) : Set α :=
  (fun m => (calls m).input.u) '' Set.Icc (windowStart (triggers calls) i) i

theorem window_of_start (h : windowStart (triggers calls) i = i) :
    window calls i = {(calls i).input.u} := by
  rw [window, h, Set.Icc_self, Set.image_singleton]

theorem window_succ_of_not_rises (h : ¬ Rises (triggers calls) (i + 1)) :
    window calls (i + 1) = insert (calls (i + 1)).input.u (window calls i) := by
  have early : windowStart (triggers calls) i ≤ i + 1 :=
    (windowStart_le _ i).trans (Nat.le_succ i)
  rw [window, windowStart_succ_of_not_rises h, ← Set.insert_Icc_right_eq_Icc_add_one early,
    Set.image_insert_eq]
  rfl

/-- After a call, the sampler remembers the first input of its window, if that began with a rise. -/
theorem sampleStep_memoryAt (start : α) (calls : ℕ → Call α (Input α)) (i : ℕ) :
    Block.memoryAt (fun _ => sampleStep) ⟨start, false⟩ calls (i + 1) =
      ⟨if Rises (triggers calls) (windowStart (triggers calls) i) then
        (calls (windowStart (triggers calls) i)).input.u else start, (calls i).input.trigger⟩ := by
  induction i with
  | zero =>
    by_cases hrises : Rises (triggers calls) 0
    · simp [Block.memoryAt, sampleStep, windowStart, hrises, rises_zero_iff.1 hrises]
    · simp [Block.memoryAt, sampleStep, windowStart, hrises, mt rises_zero_iff.2 hrises]
  | succ i ih =>
    rw [Block.memoryAt, ih]
    by_cases hrises : Rises (triggers calls) (i + 1)
    · rw [windowStart_of_rises hrises, if_pos hrises]
      simp [sampleStep, rises_succ_iff.1 hrises]
    · rw [windowStart_succ_of_not_rises hrises]
      simp [sampleStep, mt rises_succ_iff.2 hrises]

end Calls

section Ordered

variable {α κ : Type} [Scalar α] [LinearOrder κ] {p : α → Prop} {rank : α → κ}
  {calls : ℕ → Call α (Input α)}

theorem Ranked.isGreatest_singleton (h : Ranked p rank) {a : α} (ha : p a) :
    IsGreatest {a} a := by
  refine ⟨rfl, ?_⟩
  rintro x rfl
  exact h.le_self ha

/-- After a call, the greatest input of its window is remembered. -/
theorem maxStep_memoryAt (h : Ranked p rank) (hp : ∀ i, p (calls i).input.u) (i : ℕ) :
    ∃ y, IsGreatest (window calls i) y ∧
      Block.memoryAt (fun _ => maxStep) ⟨none, false⟩ calls (i + 1) =
        ⟨some y, (calls i).input.trigger⟩ := by
  induction i with
  | zero =>
    refine ⟨(calls 0).input.u, ?_, rfl⟩
    rw [window_of_start rfl]
    exact h.isGreatest_singleton (hp 0)
  | succ i ih =>
    obtain ⟨y, hy, memory⟩ := ih
    rw [Block.memoryAt, memory]
    by_cases hrises : Rises (triggers calls) (i + 1)
    · refine ⟨(calls (i + 1)).input.u, ?_, by simp [maxStep, rises_succ_iff.1 hrises]⟩
      rw [window_of_start (windowStart_of_rises hrises)]
      exact h.isGreatest_singleton (hp (i + 1))
    · refine ⟨Scalar.larger y (calls (i + 1)).input.u, ?_,
        by simp [maxStep, mt rises_succ_iff.2 hrises]⟩
      rw [window_succ_of_not_rises hrises]
      refine h.isGreatest_larger ?_ hy (hp (i + 1))
      rintro x ⟨m, -, rfl⟩
      exact hp m

end Ordered

/-- After a call, the inputs of its window have been added up and counted. -/
theorem meanStep_memoryAt (calls : ℕ → Call Rat (Input Rat)) (i : ℕ) :
    Block.memoryAt (fun _ => meanStep) ⟨0, 0, false⟩ calls (i + 1) =
      ⟨∑ m ∈ Finset.Icc (windowStart (triggers calls) i) i, (calls m).input.u,
        i - windowStart (triggers calls) i + 1, (calls i).input.trigger⟩ := by
  induction i with
  | zero =>
    cases hrises : rising false (calls 0).input.trigger with
    | true => simp [Block.memoryAt, meanStep, windowStart, hrises]
    | false => simp [Block.memoryAt, meanStep, windowStart, hrises]
  | succ i ih =>
    rw [Block.memoryAt, ih]
    by_cases hrises : Rises (triggers calls) (i + 1)
    · rw [windowStart_of_rises hrises]
      simp [meanStep, rises_succ_iff.1 hrises]
    · have early : windowStart (triggers calls) i ≤ i := windowStart_le _ i
      rw [windowStart_succ_of_not_rises hrises,
        Finset.sum_Icc_succ_top (early.trans (Nat.le_succ i)), Nat.succ_sub early]
      simp [meanStep, mt rises_succ_iff.2 hrises]

/-! ## The outputs -/

/-- What the greatest input and the sampler give at the calls: the greatest input of the window, and
its first one, or the start where the trigger has not risen yet. -/
structure Selects {α : Type} [Scalar α] (began : Option α) (calls : ℕ → Call α (Input α)) :
    Prop where
  max : ∃ y : ℕ → α,
    (∀ n, Triggered.max.Gives began ((List.range n).map calls) ((List.range n).map y)) ∧
    ∀ i, IsGreatest (window calls i) (y i)
  sampler : ∀ start, ∃ y : ℕ → α,
    (∀ n, (Triggered.sampler start).Gives began ((List.range n).map calls)
      ((List.range n).map y)) ∧
    ∀ i, ((∃ m ≤ i, Rises (triggers calls) m) →
        y i = (calls (windowStart (triggers calls) i)).input.u) ∧
      ((∀ m ≤ i, ¬ Rises (triggers calls) m) → y i = start)

theorem Ranked.selects {α κ : Type} [Scalar α] [LinearOrder κ] {p : α → Prop} {rank : α → κ}
    (h : Ranked p rank) (began : Option α) {calls : ℕ → Call α (Input α)}
    (hp : ∀ i, p (calls i).input.u) : Selects began calls where
  max := by
    refine ⟨Block.outputAt (fun _ => maxStep) ⟨none, false⟩ calls,
      Block.automaton_stepsAs.gives_range began calls, ?_⟩
    intro i
    obtain ⟨y, hy, memory⟩ := maxStep_memoryAt h hp i
    have output : some (Block.outputAt (fun _ => maxStep) ⟨none, false⟩ calls i) = some y :=
      congrArg Greatest.value memory
    rwa [Option.some.inj output]
  sampler := by
    intro start
    refine ⟨Block.outputAt (fun _ => sampleStep) ⟨start, false⟩ calls,
      Block.automaton_stepsAs.gives_range began calls, ?_⟩
    intro i
    have output : Block.outputAt (fun _ => sampleStep) ⟨start, false⟩ calls i =
        if Rises (triggers calls) (windowStart (triggers calls) i) then
          (calls (windowStart (triggers calls) i)).input.u else start :=
      congrArg Sample.value (sampleStep_memoryAt start calls i)
    constructor
    · intro hrises
      rw [output, if_pos (rises_windowStart_iff.2 hrises)]
    · intro hlevel
      have level : ¬ Rises (triggers calls) (windowStart (triggers calls) i) :=
        hlevel _ (windowStart_le _ i)
      rw [output, if_neg level]

/-- **One window.**  The window of a call begins at the latest call at which the trigger rises, or
at the first call where it has not risen yet.  In exact arithmetic, and on finite inputs in binary
floating point, the one block gives the greatest input of the window, and the sampler its first one,
or its start value where the trigger has not risen yet.  In exact arithmetic, the third block counts
the inputs of the window and gives their mean. -/
theorem one_window :
    (∀ trigger i,
      IsGreatest {m | m ≤ i ∧ (m = 0 ∨ Rises trigger m)} (windowStart trigger i)) ∧
    (∀ (began : Option Float) (calls : ℕ → Call Float (Input Float)),
      (∀ i, Scalar.isFinite (calls i).input.u = true) → Selects began calls) ∧
    ∀ (began : Option Rat) (calls : ℕ → Call Rat (Input Rat)), Selects began calls ∧
      ∃ (y : ℕ → Rat) (s : ℕ → Total Rat),
        (∀ n, mean.Runs (mean.start began) ((List.range n).map calls) ((List.range n).map y)
          (s n)) ∧
        ∀ i, (s (i + 1)).count = i - windowStart (triggers calls) i + 1 ∧
          y i = (∑ m ∈ Finset.Icc (windowStart (triggers calls) i) i, (calls m).input.u) /
            (i - windowStart (triggers calls) i + 1 : ℕ) := by
  refine ⟨isGreatest_windowStart, fun began calls => ranked_finite.selects began, ?_⟩
  intro began calls
  refine ⟨ranked_exact.selects began fun _ => trivial,
    Block.outputAt (fun _ => meanStep) ⟨0, 0, false⟩ calls,
    Block.memoryAt (fun _ => meanStep) ⟨0, 0, false⟩ calls,
    Block.automaton_stepsAs.runs_range _ calls, ?_⟩
  intro i
  have memory := meanStep_memoryAt calls i
  have output : Block.outputAt (fun _ => meanStep) ⟨0, 0, false⟩ calls i =
      (Block.memoryAt (fun _ => meanStep) ⟨0, 0, false⟩ calls (i + 1)).sum /
        (((Block.memoryAt (fun _ => meanStep) ⟨0, 0, false⟩ calls (i + 1)).count : Int) : Rat) :=
    rfl
  rw [output, memory]
  exact ⟨rfl, by rw [Int.cast_natCast]⟩

/-- Calls with a trigger that rises once, at the fourth of them, and is held. -/
def heldCalls {α : Type} (time : α) (u : List α) (later : α) : ℕ → Call α (Input α) :=
  fun i => ⟨time, u.getD i later, decide (3 ≤ i)⟩

/-- Before the rise all inputs count and the sampler gives its start; after it the two inputs since
then count, and the sampler gives the first of them. -/
theorem one_window_held :
    let floats := heldCalls (0.0 : Float) [10.0, 20.0, 15.0, 5.0] 8.0
    let exact := heldCalls (0 : Rat) [10, 20, 15, 5] 8
    (∃ y z : ℕ → Float,
      max.Gives none ((List.range 5).map floats) ((List.range 5).map y) ∧
      (sampler (-1.0)).Gives none ((List.range 5).map floats) ((List.range 5).map z) ∧
      y 2 = 20.0 ∧ y 4 = 8.0 ∧ z 2 = -1.0 ∧ z 4 = 5.0) ∧
    ∃ (y : ℕ → Rat) (s : ℕ → Total Rat),
      mean.Runs (mean.start none) ((List.range 5).map exact) ((List.range 5).map y) (s 5) ∧
      y 2 = 15 ∧ y 4 = 13 / 2 ∧ (s 5).count = 2 := by
  intro floats exact
  obtain ⟨-, onFloats, onExact⟩ := one_window
  have finite (i : ℕ) : Scalar.isFinite (floats i).input.u = true := by
    by_cases hi : i < 4
    · have first : ∀ i < 4, Scalar.isFinite (floats i).input.u = true := by decide +kernel
      exact first i hi
    · have rest : (floats i).input.u = 8.0 := by
        simp [floats, heldCalls, List.getD_eq_getElem?_getD, not_lt.1 hi]
      rw [rest]
      decide +kernel
  obtain ⟨⟨y, gives, greatest⟩, sampled⟩ := onFloats none floats finite
  obtain ⟨z, gives', first⟩ := sampled (-1.0)
  obtain ⟨-, means, totals, runs, told⟩ := onExact none exact
  have value (i k : ℕ) (hk : k ∈ Set.Icc (windowStart (triggers floats) i) i)
      (hlast : ∀ m ≤ i, windowStart (triggers floats) i ≤ m → m ≠ k →
        ¬ (floats k).input.u ≤ (floats m).input.u) : y i = (floats k).input.u := by
    obtain ⟨⟨m, hm, hy⟩, hbound⟩ := greatest i
    have hy : (floats m).input.u = y i := hy
    by_cases hmk : m = k
    · rw [← hy, hmk]
    · have below : (floats k).input.u ≤ y i := hbound ⟨k, hk, rfl⟩
      rw [← hy] at below
      exact (hlast m hm.2 hm.1 hmk below).elim
  refine ⟨⟨y, z, gives 5, gives' 5, value 2 1 (by decide) (by decide +kernel),
    value 4 4 (by decide) (by decide +kernel), (first 2).2 (by decide),
    (first 4).1 ⟨3, by decide⟩⟩, means, totals, runs 5, ?_, ?_, (told 4).1⟩
  · rw [(told 2).2]
    decide +kernel
  · rw [(told 4).2]
    decide +kernel

end ControlBlocks.Triggered

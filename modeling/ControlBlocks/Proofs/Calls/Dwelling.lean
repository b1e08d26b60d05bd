import ControlBlocks.Proofs.Block.Built
import ControlBlocks.Proofs.Calls.Basic
import ControlBlocks.Proofs.Calls.Stretches
import ControlBlocks.Proofs.Exact.Scalar

/-!
# Dwelling

When a hold that lets its output dwell changes it, said by the earlier changes.

* `DwellHold.Turns` — the input is another one, and the output has dwelt for long enough;
* `DwellHold.memory_succ` — the memory holds the output and when its stretch began;
* `DwellHold.output_succ`, `output_succ_ne_iff` — the output turns to the input just then;
* `DwellHold.output_eq_input` — always, if it need not dwell;
* `DwellHold.dwells_then_follows` — the same of the block.
-/

set_option autoImplicit false

namespace ControlBlocks.DwellHold

variable {whileTrue whileFalse : Rat} {calls : ℕ → Call Rat Bool} {s i : ℕ}

/-- The input `u` differs from the output `y`, which has been there for its least time. -/
def Turns (whileTrue whileFalse now since : Rat) (y u : Bool) : Prop :=
  u ≠ y ∧ (if y then whileTrue else whileFalse) ≤ now - since

instance (whileTrue whileFalse now since : Rat) (y u : Bool) :
    Decidable (Turns whileTrue whileFalse now since y u) := by
  unfold Turns
  infer_instance

theorem step_some (whileTrue whileFalse now since : Rat) (y u : Bool) :
    step whileTrue whileFalse now ⟨y, some since⟩ u =
      if Turns whileTrue whileFalse now since y u then (u, ⟨u, some now⟩)
      else (y, ⟨y, some since⟩) := by
  simp [step, Turns]

/-- The outputs. -/
def output (whileTrue whileFalse : Rat) (calls : ℕ → Call Rat Bool) : ℕ → Bool :=
  Block.outputAt (step whileTrue whileFalse) initial calls

/-- The memory before each call. -/
def memory (whileTrue whileFalse : Rat) (calls : ℕ → Call Rat Bool) : ℕ → State Rat :=
  Block.memoryAt (step whileTrue whileFalse) initial calls

/-- The next call, where the memory holds the output and a time. -/
theorem next_eq {since : Rat}
    (h : memory whileTrue whileFalse calls (i + 1) =
      ⟨output whileTrue whileFalse calls i, some since⟩) :
    (output whileTrue whileFalse calls (i + 1), memory whileTrue whileFalse calls (i + 2)) =
      if Turns whileTrue whileFalse (calls (i + 1)).time since
        (output whileTrue whileFalse calls i) (calls (i + 1)).input
      then ((calls (i + 1)).input, ⟨(calls (i + 1)).input, some (calls (i + 1)).time⟩)
      else (output whileTrue whileFalse calls i,
        ⟨output whileTrue whileFalse calls i, some since⟩) := by
  rw [← step_some, ← h]
  rfl

/-- After a call, the memory holds the output, and when its stretch began. -/
theorem memory_succ (h : Stretch (output whileTrue whileFalse calls) s i) :
    memory whileTrue whileFalse calls (i + 1) =
      ⟨output whileTrue whileFalse calls i, some (calls s).time⟩ := by
  induction h using Stretch.induction with
  | first => rfl
  | goesOn s i h hv ih =>
    have next := next_eq ih
    split at next
    · -- an output that stays the same has not turned to another input
      rename_i hturns
      obtain ⟨turned, -⟩ := Prod.mk.inj next
      exact absurd (turned.symm.trans hv) hturns.1
    · obtain ⟨same, last⟩ := Prod.mk.inj next
      rw [last, same]
  | turns s i h hv ih =>
    have next := next_eq ih
    split at next
    · obtain ⟨turned, last⟩ := Prod.mk.inj next
      rw [last, turned]
    · exact absurd (Prod.mk.inj next).1 hv

/-- The output turns to the input, or dwells. -/
theorem output_succ (h : Stretch (output whileTrue whileFalse calls) s i) :
    output whileTrue whileFalse calls (i + 1) =
      if Turns whileTrue whileFalse (calls (i + 1)).time (calls s).time
        (output whileTrue whileFalse calls i) (calls (i + 1)).input
      then (calls (i + 1)).input else output whileTrue whileFalse calls i := by
  have next := congrArg Prod.fst (next_eq (memory_succ h))
  rwa [apply_ite Prod.fst] at next

theorem output_succ_ne_iff (h : Stretch (output whileTrue whileFalse calls) s i) :
    output whileTrue whileFalse calls (i + 1) ≠ output whileTrue whileFalse calls i ↔
      Turns whileTrue whileFalse (calls (i + 1)).time (calls s).time
        (output whileTrue whileFalse calls i) (calls (i + 1)).input := by
  rw [output_succ h]
  split
  · rename_i hturns
    exact iff_of_true hturns.1 hturns
  · rename_i hdwells
    exact iff_of_false (fun hne => hne rfl) hdwells

/-- An output that need not dwell is the input. -/
theorem output_eq_input (hascend : Monotone fun i => (calls i).time) (i : ℕ) :
    output 0 0 calls i = (calls i).input := by
  cases i with
  | zero => rfl
  | succ i =>
    obtain ⟨s, hs⟩ := exists_stretch (output 0 0 calls) i
    have gone : 0 ≤ (calls (i + 1)).time - (calls s).time :=
      sub_nonneg.2 (hascend (hs.le.trans (Nat.le_succ i)))
    rw [output_succ hs]
    split
    · rfl
    · rename_i hdwells
      by_contra hne
      exact hdwells ⟨Ne.symm hne, by simpa using gone⟩

/-- **Dwelling, then following.**  The first output is the first input, and the output changes to
the current input only.  It does so just if the input differs from it and its least time has gone by
since the first call of its stretch, however the inputs went on the way.  Without least times the
output is the input. -/
theorem dwells_then_follows (htrue : 0 ≤ whileTrue) (hfalse : 0 ≤ whileFalse) :
    ∃ hold, block whileTrue whileFalse = .ok hold ∧
      ∀ (began : Option Rat) (calls : ℕ → Call Rat Bool), (Monotone fun i => (calls i).time) →
        ∃ y : ℕ → Bool,
          (∀ n, hold.Gives began ((List.range n).map calls) ((List.range n).map y)) ∧
          y 0 = (calls 0).input ∧
          (∀ i, y (i + 1) ≠ y i → y (i + 1) = (calls (i + 1)).input) ∧
          (∀ i, ∃ s, Stretch y s i ∧
            (y (i + 1) ≠ y i ↔ (calls (i + 1)).input ≠ y i ∧
              (if y i then whileTrue else whileFalse) ≤
                (calls (i + 1)).time - (calls s).time)) ∧
          (whileTrue = 0 → whileFalse = 0 → ∀ i, y i = (calls i).input) := by
  refine ⟨_, block_eq_ok_iff.2 ⟨⟨htrue, hfalse⟩, rfl⟩, ?_⟩
  intro began calls hascend
  refine ⟨output whileTrue whileFalse calls, Block.timed_stepsAs.gives_range began calls, rfl,
    ?follows, ?dwells, ?free⟩
  case follows =>
    intro i hne
    obtain ⟨s, hs⟩ := exists_stretch (output whileTrue whileFalse calls) i
    rw [output_succ hs, if_pos ((output_succ_ne_iff hs).1 hne)]
  case dwells =>
    intro i
    obtain ⟨s, hs⟩ := exists_stretch (output whileTrue whileFalse calls) i
    exact ⟨s, hs, output_succ_ne_iff hs⟩
  case free =>
    rintro rfl rfl
    exact output_eq_input hascend

/-- Inputs that flicker: the output stays true for three seconds and then false for two. -/
theorem dwells_then_follows_flickering :
    let calls : ℕ → Call Rat Bool :=
      fun i => ⟨i, [true, false, true, false, true, true].getD i false⟩
    ∃ (hold : Block Rat Bool (State Rat) Bool) (y : ℕ → Bool), block 3 2 = .ok hold ∧
      hold.Gives none ((List.range 7).map calls) ((List.range 7).map y) ∧
      (List.range 7).map y = [true, true, true, false, false, true, true] ∧
      ∃ s, Stretch y s 4 ∧ 2 ≤ (calls 5).time - (calls s).time := by
  intro calls
  have ascending : Monotone fun i => (calls i).time := fun i j hij => Nat.cast_le.2 hij
  obtain ⟨hold, built, run⟩ :=
    dwells_then_follows (by norm_num : (0 : Rat) ≤ 3) (by norm_num : (0 : Rat) ≤ 2)
  obtain ⟨y, gives, -, -, dwells, -⟩ := run none calls ascending
  have outputs : (List.range 7).map y = [true, true, true, false, false, true, true] := by
    obtain ⟨-, rfl⟩ := block_eq_ok_iff.1 built
    rw [(gives 7).unique (Block.timed_gives _ _ _ none _)]
    decide +kernel
  obtain ⟨s, hs, turns⟩ := dwells 4
  have values := outputs
  simp only [List.range_succ, List.range_zero, List.nil_append, List.cons_append, List.map_cons,
    List.map_nil, List.cons.injEq] at values
  obtain ⟨-, -, -, -, y₄, y₅, -⟩ := values
  have changed : y 5 ≠ y 4 := by simp [y₄, y₅]
  have dwelt := (turns.1 changed).2
  rw [y₄] at dwelt
  exact ⟨hold, y, built, gives 7, outputs, s, hs, dwelt⟩

end ControlBlocks.DwellHold

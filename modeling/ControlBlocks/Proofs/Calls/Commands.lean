import ControlBlocks.Proofs.Calls.Delays
import ControlBlocks.Proofs.Calls.Stretches

/-!
# Proof of a command, from call to call

What the proof of a command tells, said by the last changes of the command and of the status.

* `StatusProof.commandedAt_memory`, `StatusProof.becameAt_memory` — the memory holds when the
  command and the status last changed;
* `StatusProof.proven_iff`, `StatusProof.stuckAt_iff` — what is told from that;
* `StatusProof.proven_since_command` — the same of the block.
-/

set_option autoImplicit false

namespace ControlBlocks.StatusProof

variable {testDelay stuckDelay : Rat} {calls : ℕ → Call Rat Input} {c s i : ℕ} {p : Bool}

/-- The commands. -/
def commands (calls : ℕ → Call Rat Input) (i : ℕ) : Bool := (calls i).input.setpoint

/-- The status at each call. -/
def statuses (calls : ℕ → Call Rat Input) (i : ℕ) : Bool := (calls i).input.status

/-- The memory before each call; the delays do not matter to it. -/
def memory (calls : ℕ → Call Rat Input) : ℕ → State Rat
  | 0 => initial
  | i + 1 => next (calls i).time (memory calls i) (calls i).input

theorem memoryAt_eq (testDelay stuckDelay : Rat) (calls : ℕ → Call Rat Input) (i : ℕ) :
    Block.memoryAt (step testDelay stuckDelay) initial calls i = memory calls i := by
  induction i with
  | zero => rfl
  | succ i ih =>
    rw [Block.memoryAt, ih]
    rfl

theorem status_memory_succ (calls : ℕ → Call Rat Input) (i : ℕ) :
    (memory calls (i + 1)).status = some (statuses calls i) := rfl

theorem setpoint_memory_succ (calls : ℕ → Call Rat Input) (i : ℕ) :
    (memory calls (i + 1)).setpoint = commands calls i := rfl

theorem commandedAt_next (now : Rat) (s : State Rat) (d : Input) :
    (next now s d).commandedAt =
      if s.status = none ∨ d.setpoint ≠ s.setpoint then now else s.commandedAt := by
  simp [next]

/-- After a call, the memory holds when the command last changed. -/
theorem commandedAt_memory (h : Stretch (commands calls) c i) :
    (memory calls (i + 1)).commandedAt = (calls c).time := by
  induction h using Stretch.induction with
  | first => rw [memory, commandedAt_next, if_pos (.inl rfl)]
  | goesOn c i h hv ih =>
    have kept : ¬ ((memory calls (i + 1)).status = none ∨
        (calls (i + 1)).input.setpoint ≠ (memory calls (i + 1)).setpoint) := by
      rw [status_memory_succ, setpoint_memory_succ, ← hv]
      simp [commands]
    rw [memory, commandedAt_next, if_neg kept, ih]
  | turns c i h hv ih =>
    rw [memory, commandedAt_next, if_pos (.inr hv)]

/-- After a call, the memory holds since when the status has been as it is. -/
theorem becameAt_memory (h : Stretch (statuses calls) s i) :
    (memory calls (i + 1)).becameAt (statuses calls i) = some (calls s).time := by
  have became (i : ℕ) : (memory calls (i + 1)).becameAt (statuses calls i) =
      if (memory calls i).status = some (statuses calls i) then
        (memory calls i).becameAt (statuses calls i)
      else some (calls i).time :=
    becameAt_next (calls i).time (memory calls i) (calls i).input.setpoint
  induction h using Stretch.induction with
  | first => rw [became, if_neg (by simp [memory, initial])]
  | goesOn s i h hv ih => rw [became, status_memory_succ, hv, if_pos rfl, ih]
  | turns s i h hv ih =>
    have other : ¬ some (statuses calls i) = some (statuses calls (i + 1)) := by
      simpa using Ne.symm hv
    rw [became, status_memory_succ, if_neg other]

/-! ## What is told -/

/-- The outputs. -/
def output (testDelay stuckDelay : Rat) (calls : ℕ → Call Rat Input) : ℕ → Output :=
  Block.outputAt (step testDelay stuckDelay) initial calls

theorem output_eq (testDelay stuckDelay : Rat) (calls : ℕ → Call Rat Input) (i : ℕ) :
    output testDelay stuckDelay calls i =
      (step testDelay stuckDelay (calls i).time (memory calls i) (calls i).input).1 := by
  rw [output, Block.outputAt, memoryAt_eq]

theorem proven_iff (h : Stretch (commands calls) c i) :
    (output testDelay stuckDelay calls i).proven = true ↔
      statuses calls i = commands calls i ∨ (calls i).time - (calls c).time < testDelay := by
  rw [← commandedAt_memory h, output_eq]
  simp [step, memory, statuses, commands, or_comm]

theorem stuckAt_iff (h : Stretch (statuses calls) s i) :
    (output testDelay stuckDelay calls i).stuckAt p = true ↔
      statuses calls i = p ∧ stuckDelay ≤ (calls i).time - (calls s).time := by
  rw [output_eq, stuckAt_step, Bool.and_eq_true, beq_iff_eq]
  apply and_congr_right
  rintro rfl
  have became := becameAt_memory h
  rw [memory, statuses] at became
  rw [became]
  simp [lasted]

/-- **What the proof of a command tells.**  The command is proven just if the status follows it, or
less than the test delay has gone by since the latest call at which it changed, the first call being
one.  The status is stuck on, or off, just if it has been so for the stuck delay, since the first
call of the unbroken run.  So it is never stuck at both. -/
theorem proven_since_command (htest : 0 ≤ testDelay) (hstuck : 0 ≤ stuckDelay) :
    ∃ proof, block testDelay stuckDelay = .ok proof ∧
      ∀ (began : Option Rat) (calls : ℕ → Call Rat Input),
        ∃ y : ℕ → Output,
          (∀ n, proof.Gives began ((List.range n).map calls) ((List.range n).map y)) ∧
          (∀ i, ∃ c, IsGreatest {c | c ≤ i ∧ Changes (fun j => (calls j).input.setpoint) c} c ∧
            ((y i).proven = true ↔ (calls i).input.status = (calls i).input.setpoint ∨
              (calls i).time - (calls c).time < testDelay)) ∧
          (∀ i, ∃ s, Stretch (fun j => (calls j).input.status) s i ∧
            ((y i).stuckOn = true ↔
              (calls i).input.status = true ∧ stuckDelay ≤ (calls i).time - (calls s).time) ∧
            ((y i).stuckOff = true ↔
              (calls i).input.status = false ∧ stuckDelay ≤ (calls i).time - (calls s).time)) ∧
          ∀ i, ¬ ((y i).stuckOn = true ∧ (y i).stuckOff = true) := by
  refine ⟨_, block_eq_ok_iff.2 ⟨⟨htest, hstuck⟩, rfl⟩, ?_⟩
  intro began calls
  have stuck (i : ℕ) : ∃ s, Stretch (statuses calls) s i ∧
      ((output testDelay stuckDelay calls i).stuckOn = true ↔
        statuses calls i = true ∧ stuckDelay ≤ (calls i).time - (calls s).time) ∧
      ((output testDelay stuckDelay calls i).stuckOff = true ↔
        statuses calls i = false ∧ stuckDelay ≤ (calls i).time - (calls s).time) := by
    obtain ⟨s, hs⟩ := exists_stretch (statuses calls) i
    exact ⟨s, hs, stuckAt_iff (p := true) hs, stuckAt_iff (p := false) hs⟩
  refine ⟨output testDelay stuckDelay calls, Block.timed_stepsAs.gives_range began calls, ?_,
    stuck, ?_⟩
  · intro i
    obtain ⟨c, hc⟩ := exists_stretch (commands calls) i
    exact ⟨c, stretch_iff_isGreatest.1 hc, proven_iff hc⟩
  · rintro i ⟨hon, hoff⟩
    obtain ⟨s, -, on, off⟩ := stuck i
    have := (on.1 hon).1.symm.trans (off.1 hoff).1
    exact Bool.noConfusion this

/-- A command that is given, taken back at once and given again, to a device that never follows. -/
theorem proven_since_command_again :
    let calls : ℕ → Call Rat Input := fun i =>
      ⟨[0, 20, 20, 25, 30].getD i 35, false, i != 0 && i != 2⟩
    ∃ (proof : Block Rat Input (State Rat) Output) (y : ℕ → Output), block 10 30 = .ok proof ∧
      proof.Gives none ((List.range 6).map calls) ((List.range 6).map y) ∧
      (y 2).proven = true ∧ (y 4).proven = true ∧ (y 5).proven = false ∧
      (y 3).stuckOff = false ∧ (y 4).stuckOff = true ∧ (y 4).stuckOn = false := by
  intro calls
  obtain ⟨proof, built, run⟩ :=
    proven_since_command (by norm_num : (0 : Rat) ≤ 10) (by norm_num : (0 : Rat) ≤ 30)
  obtain ⟨y, gives, proven, stuck, never⟩ := run none calls
  have given (i : ℕ) (hi : 3 ≤ i) : (calls i).input.setpoint = true := by
    have : i ≠ 0 := by omega
    have : i ≠ 2 := by omega
    simp [calls, *]
  have command (i : ℕ) (hi : 3 ≤ i) : Stretch (fun j => (calls j).input.setpoint) 3 i :=
    ⟨hi, fun m hm _ => (given m hm).trans (given i hi).symm, .inr (by decide)⟩
  have status (i : ℕ) : Stretch (fun j => (calls j).input.status) 0 i :=
    ⟨Nat.zero_le i, fun _ _ _ => rfl, .inl rfl⟩
  have graced (i : ℕ) (hi : 3 ≤ i) : (y i).proven = true ↔ (calls i).time - 25 < 10 := by
    obtain ⟨c, hc, told⟩ := proven i
    obtain rfl := hc.unique (stretch_iff_isGreatest.1 (command i hi))
    rw [told, given i hi]
    simp [calls]
  have off (i : ℕ) : (y i).stuckOff = true ↔ 30 ≤ (calls i).time - 0 := by
    obtain ⟨s, hs, -, told⟩ := stuck i
    obtain rfl := hs.unique (status i)
    rw [told]
    simp [calls]
  have stuck₄ : (y 4).stuckOff = true := (off 4).2 (by decide +kernel)
  refine ⟨proof, y, built, gives 6, ?_, (graced 4 (by omega)).2 (by decide +kernel), ?_, ?_,
    stuck₄, ?_⟩
  · obtain ⟨c, -, told⟩ := proven 2
    exact told.2 (.inl rfl)
  · rw [Bool.eq_false_iff, ne_eq, graced 5 (by omega)]
    decide +kernel
  · rw [Bool.eq_false_iff, ne_eq, off 3]
    decide +kernel
  · rw [Bool.eq_false_iff]
    exact fun hon => never 4 ⟨hon, stuck₄⟩

end ControlBlocks.StatusProof

import ControlBlocks.Proofs.Block.Built
import ControlBlocks.Proofs.Calls.Basic
import ControlBlocks.Proofs.Exact.Scalar

/-!
# Three on-delays

A timer, a delay and the proof of a command each tell that an input has been true for some time.
They remember different things about it, and agree call by call.

* `Timer.step_starts`, `OnDelay.step_rises` and so on — what one evaluation does;
* `OnDelay.Tracks` — what a delay and a timer remember of the same inputs;
* `StatusProof.Watches` — what a proof and a timer remember of a status;
* `onDelays_agree` — the three give the same.
-/

set_option autoImplicit false

namespace ControlBlocks

/-! ## The timer -/

namespace Timer

/-- A timer starts anew; one without a threshold to reach has reached it. -/
theorem step_starts (threshold now : Rat) (passed : Bool) :
    step threshold now ⟨none, passed⟩ true =
      (⟨0, decide (threshold ≤ 0)⟩, ⟨some now, decide (threshold ≤ 0)⟩) := by
  simp [step]

theorem step_runs (threshold now since : Rat) (passed : Bool) :
    step threshold now ⟨some since, passed⟩ true =
      (⟨now - since, passed || decide (threshold ≤ now - since)⟩,
        ⟨some since, passed || decide (threshold ≤ now - since)⟩) := rfl

end Timer

/-! ## The delay -/

namespace OnDelay

variable {delay : Rat} {s : State Rat} {t : Timer.State Rat}

theorem step_rises (delay now : Rat) (y : Bool) (due : Option Rat) :
    step delay now ⟨y, false, due⟩ true =
      if delay ≤ 0 then (true, ⟨true, true, none⟩)
      else (false, ⟨false, true, some (now + delay)⟩) := by
  by_cases hdelay : delay ≤ 0
  · have atOnce : ¬ 0 < delay := not_lt.2 hdelay
    simp [step, next, rising, hdelay, atOnce]
  · have later : 0 < delay := not_le.1 hdelay
    simp [step, next, rising, hdelay, later]

theorem step_waits (delay now due : Rat) (y : Bool) :
    step delay now ⟨y, true, some due⟩ true =
      if due ≤ now then (true, ⟨true, true, none⟩) else (y, ⟨y, true, some due⟩) := by
  by_cases hdue : due ≤ now
  · simp [step, next, rising, hdue]
  · simp [step, next, rising, hdue]

/-- What a delay and a timer with the same threshold remember after the same inputs. -/
inductive Tracks (delay : Rat) : State Rat → Timer.State Rat → Prop where
  /-- The last input was false, or there was none. -/
  | idle {y : Bool} {due : Option Rat} {passed : Bool} :
      Tracks delay ⟨y, false, due⟩ ⟨none, passed⟩
  /-- A rise is under way. -/
  | waiting {since : Rat} : Tracks delay ⟨false, true, some (since + delay)⟩ ⟨some since, false⟩
  /-- A rise has come through. -/
  | through {y : Bool} {since : Rat} : Tracks delay ⟨y, true, none⟩ ⟨some since, true⟩

/-- At any time, the delay gives what the timer's threshold does. -/
theorem Tracks.step (h : Tracks delay s t) (now : Rat) (u : Bool) :
    (step delay now s u).1 = (Timer.step delay now t u).1.passed ∧
      Tracks delay (OnDelay.step delay now s u).2 (Timer.step delay now t u).2 := by
  cases u with
  | false => exact ⟨rfl, .idle⟩
  | true =>
    cases h with
    | idle =>
      rw [Timer.step_starts, step_rises]
      by_cases hdelay : delay ≤ 0
      · rw [if_pos hdelay, decide_eq_true hdelay]
        exact ⟨rfl, .through⟩
      · rw [if_neg hdelay, decide_eq_false hdelay]
        exact ⟨rfl, .waiting⟩
    | @waiting since =>
      have due : since + delay ≤ now ↔ delay ≤ now - since := le_sub_iff_add_le'.symm
      rw [Timer.step_runs, step_waits, Bool.false_or]
      by_cases hdue : since + delay ≤ now
      · rw [if_pos hdue, decide_eq_true (due.1 hdue)]
        exact ⟨rfl, .through⟩
      · rw [if_neg hdue, decide_eq_false (mt due.2 hdue)]
        exact ⟨rfl, .waiting⟩
    | through =>
      rw [Timer.step_runs, Bool.true_or]
      exact ⟨rfl, .through⟩

end OnDelay

/-! ## The proof of a command -/

namespace StatusProof

variable {delay before now : Rat} {p : Bool} {s : State Rat} {t : Timer.State Rat}

/-- When the status last became `p`. -/
def State.becameAt (p : Bool) (s : State Rat) : Option Rat := if p then s.onSince else s.offSince

/-- The status has been `p` for long. -/
def Output.stuckAt (p : Bool) (y : Output) : Bool := if p then y.stuckOn else y.stuckOff

/-- A status that was `p` before has been so from the same time on; any other becomes `p` now. -/
theorem becameAt_next (now : Rat) (s : State Rat) (setpoint : Bool) :
    (next now s ⟨p, setpoint⟩).becameAt p =
      if s.status = some p then s.becameAt p else some now := by
  obtain ⟨status, _, _, _, _⟩ := s
  cases p <;> rcases status with _ | _ | _ <;> simp [next, State.becameAt]

theorem stuckAt_step (testDelay delay now : Rat) (s : State Rat) (d : Input) :
    (step testDelay delay now s d).1.stuckAt p =
      (d.status == p && lasted delay now ((next now s d).becameAt p)) := by
  cases p <;> simp [step, Output.stuckAt, State.becameAt]

/-- What a proof and a timer with the same threshold remember at a time, where the timer has run
while the status was `p`. -/
inductive Watches (delay now : Rat) (p : Bool) (s : State Rat) : Timer.State Rat → Prop where
  /-- The status was not `p`, or there was none. -/
  | idle {passed : Bool} (h : s.status ≠ some p) : Watches delay now p s ⟨none, passed⟩
  /-- The status was `p`. -/
  | running {since : Rat} (h : s.status = some p) (hsince : s.becameAt p = some since) :
      Watches delay now p s ⟨some since, decide (delay ≤ now - since)⟩

/-- The proof finds the status stuck at `p` when the timer has reached its threshold. -/
theorem Watches.step (h : Watches delay before p s t) (hnow : before ≤ now) (testDelay : Rat)
    (d : Input) :
    (step testDelay delay now s d).1.stuckAt p =
        (Timer.step delay now t (d.status == p)).1.passed ∧
      Watches delay now p (StatusProof.step testDelay delay now s d).2
        (Timer.step delay now t (d.status == p)).2 := by
  obtain ⟨status, setpoint⟩ := d
  rw [stuckAt_step]
  by_cases hp : status = p
  · subst hp
    have became := becameAt_next (p := status) now s setpoint
    simp only [beq_self_eq_true, Bool.true_and]
    cases h with
    | idle hidle =>
      have start : decide (delay ≤ 0) = decide (delay ≤ now - now) := by rw [sub_self]
      rw [if_neg hidle] at became
      rw [Timer.step_starts, start, became]
      exact ⟨rfl, .running rfl became⟩
    | @running since hrun hsince =>
      -- the timer remembers that its threshold was reached, the proof compares anew
      have later : before - since ≤ now - since := sub_le_sub_right hnow since
      rw [if_pos hrun, hsince] at became
      rw [Timer.step_runs, Scalar.reached_or later, became]
      exact ⟨rfl, .running rfl became⟩
  · have other : (status == p) = false := beq_false_of_ne hp
    rw [other]
    exact ⟨rfl, .idle fun h => hp (Option.some.inj h)⟩

end StatusProof

/-! ## Call by call -/

section Agreement

variable {d testDelay : Rat}

theorem OnDelay.outputs_eq (d : Rat) (calls : List (Call Rat Bool)) :
    Block.outputs (step d) initial calls =
      (Block.outputs (Timer.step d) (Timer.initial d) calls).map Timer.Output.passed := by
  have alike : (Block.outputs (step d) initial calls).map id =
      (Block.outputs (Timer.step d) (Timer.initial d) (calls.map id)).map Timer.Output.passed :=
    Block.map_outputs_eq (fun s t _ => Tracks d s t) (fun h => h.step _ _) .idle
  simpa only [List.map_id] using alike

theorem StatusProof.map_stuckAt_outputs (testDelay d : Rat) (p : Bool)
    {calls : List (Call Rat Input)} (hascend : (calls.map Call.time).IsChain (· ≤ ·)) :
    (Block.outputs (step testDelay d) initial calls).map (Output.stuckAt p) =
      (Block.outputs (Timer.step d) (Timer.initial d)
        (calls.map (Call.map (·.status == p)))).map Timer.Output.passed := by
  have start : ∃ before, (before :: calls.map Call.time).IsChain (· ≤ ·) ∧
      Watches d before p initial (Timer.initial d) := by
    cases calls with
    | nil => exact ⟨0, .singleton 0, .idle (by simp [initial])⟩
    | cons c calls => exact ⟨c.time, hascend.cons_cons le_rfl, .idle (by simp [initial])⟩
  refine Block.map_outputs_eq (fun s t calls => ∃ before,
    (before :: calls.map Call.time).IsChain (· ≤ ·) ∧ Watches d before p s t) ?_ start
  rintro s t c calls ⟨before, hchain, h⟩
  obtain ⟨hnow, hrest⟩ := List.isChain_cons_cons.1 hchain
  obtain ⟨same, hnext⟩ := h.step hnow testDelay c.input
  exact ⟨same, c.time, hrest, hnext⟩

/-- **The three agree.**  Whatever its threshold, a timer tells at every call what a delay of the
same length gives.  If the length is not negative and time does not go back, a proof finds the
status stuck on when a timer on the status tells so, and stuck off when a timer on its negation
does. -/
theorem onDelays_agree (d : Rat) (began : Option Rat) (calls : List (Call Rat StatusProof.Input)) :
    ∃ timer delay, Timer.block d = .ok timer ∧ OnDelay.block d = .ok delay ∧
      ∃ on off, timer.Gives began (calls.map (Call.map (·.status))) on ∧
        timer.Gives began (calls.map (Call.map (!·.status))) off ∧
        delay.Gives began (calls.map (Call.map (·.status))) (on.map Timer.Output.passed) ∧
        (0 ≤ d → (calls.map Call.time).IsChain (· ≤ ·) → ∀ testDelay, 0 ≤ testDelay →
          ∃ proof ys, StatusProof.block testDelay d = .ok proof ∧ proof.Gives began calls ys ∧
            ys.map StatusProof.Output.stuckOn = on.map Timer.Output.passed ∧
            ys.map StatusProof.Output.stuckOff = off.map Timer.Output.passed) := by
  have finite := Scalar.isFinite_exact d
  refine ⟨_, _, Timer.block_eq_ok_iff.2 ⟨finite, rfl⟩, OnDelay.block_eq_ok_iff.2 ⟨finite, rfl⟩,
    _, _, Block.timed_gives _ _ _ began _, Block.timed_gives _ _ _ began _, ?delayed, ?proven⟩
  case delayed =>
    rw [← OnDelay.outputs_eq]
    exact Block.timed_gives _ _ _ began _
  case proven =>
    intro hd hascend testDelay htest
    have on := StatusProof.map_stuckAt_outputs testDelay d true hascend
    have off := StatusProof.map_stuckAt_outputs testDelay d false hascend
    simp only [beq_true] at on
    simp only [beq_false] at off
    exact ⟨_, _, StatusProof.block_eq_ok_iff.2 ⟨⟨htest, hd⟩, rfl⟩,
      Block.timed_gives _ _ _ began calls, on, off⟩

/-- A first rise that is cancelled, and a second one that comes through. -/
theorem onDelays_agree_cancelled :
    let calls : List (Call Rat StatusProof.Input) :=
      [⟨0, true, false⟩, ⟨1, false, true⟩, ⟨3, false, true⟩, ⟨4, true, true⟩, ⟨6, true, true⟩]
    ∃ delay proof ys, OnDelay.block (2 : Rat) = .ok delay ∧
      StatusProof.block (1 : Rat) 2 = .ok proof ∧
      delay.Gives none (calls.map (Call.map (·.status))) [false, false, false, false, true] ∧
      proof.Gives none calls ys ∧
      ys.map StatusProof.Output.stuckOn = [false, false, false, false, true] ∧
      ys.map StatusProof.Output.stuckOff = [false, false, true, false, false] := by
  intro calls
  obtain ⟨timer, delay, htimer, hdelay, on, off, -, givesOff, givesDelayed, proven⟩ :=
    onDelays_agree 2 none calls
  have ascending : (calls.map Call.time).IsChain (· ≤ ·) := by decide +kernel
  obtain ⟨proof, ys, hproof, givesProof, stuckOn, stuckOff⟩ :=
    proven (by norm_num) ascending 1 (by norm_num)
  have delayed : Block.outputs (OnDelay.step 2) OnDelay.initial
      (calls.map (Call.map (·.status))) = [false, false, false, false, true] := by
    decide +kernel
  have lasted : (Block.outputs (Timer.step 2) (Timer.initial 2)
      (calls.map (Call.map (!·.status)))).map Timer.Output.passed =
        [false, false, true, false, false] := by
    decide +kernel
  obtain ⟨-, rfl⟩ := OnDelay.block_eq_ok_iff.1 hdelay
  obtain ⟨-, rfl⟩ := Timer.block_eq_ok_iff.1 htimer
  have hon := givesDelayed.unique (Block.timed_gives _ _ _ _ _)
  have hoff := givesOff.unique (Block.timed_gives _ _ _ _ _)
  rw [delayed] at hon
  rw [hon] at stuckOn givesDelayed
  rw [hoff, lasted] at stuckOff
  exact ⟨_, proof, ys, hdelay, hproof, givesDelayed, givesProof, stuckOn, stuckOff⟩

end Agreement

end ControlBlocks

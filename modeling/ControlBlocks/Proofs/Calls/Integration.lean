import ControlBlocks.Proofs.Binary64.Order
import ControlBlocks.Proofs.Block.Built
import ControlBlocks.Proofs.Calls.Basic
import ControlBlocks.Proofs.Exact.Scalar
import Mathlib.Algebra.Order.Field.Basic
import Mathlib.Order.Monotone.Basic
import Mathlib.Tactic.FieldSimp
import Mathlib.Tactic.Ring

/-!
# Integration and differentiation

In exact arithmetic, and at times that ascend, each of the two undoes the other.

* `Derivative.unlimited` — the difference quotient without a limit, which is the block with an
  infinite one (`Derivative.block_infinite`);
* `Integrator.sums`, `Derivative.slopes` — what the two blocks give;
* `slopes_sums`, `sums_slopes` — one after the other;
* `integration_undone` — the same of the blocks.
-/

set_option autoImplicit false

namespace ControlBlocks

/-! ## The derivative without a limit -/

namespace Derivative

variable {α : Type} [Scalar α]

/-- The quotient after an evaluation; zero at the first one. -/
def quotient (now : α) (s : State α) (u : α) : α :=
  match s.last with
  | none => 0
  | some (before, last) => if 0 < now - last then (u - before) / (now - last) else s.y

/-- The difference quotient of the input. -/
def unlimited : Block α α (State α) α :=
  .timed "Derivative" ⟨0, none⟩ fun now s u => (quotient now s u, ⟨quotient now s u, some (u, now)⟩)

/-- In binary floating point it is the block with an infinite limit. -/
theorem block_infinite : block (1.0 / 0.0 : Float) 0 = .ok unlimited := by
  have positive : (0 : Float) < 1.0 / 0.0 := by decide +kernel
  refine block_eq_ok_iff.2 ⟨positive, ?_⟩
  have same : value (1.0 / 0.0 : Float) 0 = quotient := by
    funext now s u
    obtain ⟨y, _ | ⟨before, last⟩⟩ := s
    · rfl
    · simp only [value, quotient, Binary64.clamp_infinite]
  unfold unlimited
  rw [← same]
  rfl

end Derivative

variable {k start : Rat} {t v : ℕ → Rat} {i : ℕ}

/-! ## What the blocks give -/

namespace Integrator

/-- The calls of an integrator with the trigger low; what it would load does not matter. -/
def calls (t v resetTo : ℕ → Rat) (i : ℕ) : Call Rat (Input Rat) := ⟨t i, v i, false, resetTo i⟩

/-- The sums of the inputs, each for the time since the one before. -/
def sums (k start : Rat) (t v : ℕ → Rat) : ℕ → Rat
  | 0 => start
  | i + 1 => sums k start t v i + k * v (i + 1) * (t (i + 1) - t i)

theorem gives_sums (ht : StrictMono t) {b : Block Rat (Input Rat) (State Rat) Rat}
    (hb : block k start = .ok b) (v resetTo : ℕ → Rat) (began : Option Rat) (n : ℕ) :
    b.Gives began ((List.range n).map (calls t v resetTo))
      ((List.range n).map (sums k start t v)) := by
  obtain ⟨-, rfl⟩ := block_eq_ok_iff.1 hb
  let memory : ℕ → State Rat
    | 0 => ⟨start, none, false⟩
    | i + 1 => ⟨sums k start t v i, some (t i), false⟩
  refine ⟨memory n, Block.Runs.range memory n fun i _ => ?_⟩
  cases i with
  | zero => rfl
  | succ i =>
    have later : 0 < t (i + 1) - t i := sub_pos.2 (ht (Nat.lt_succ_self i))
    have added : value k (t (i + 1)) (memory (i + 1)) ⟨v (i + 1), false, resetTo (i + 1)⟩ =
        sums k start t v (i + 1) := by
      simp [value, memory, rising, sums, later]
    show Except.ok (step k _ _ _) = _
    simp only [step, calls, added]
    rfl

end Integrator

namespace Derivative

/-- The calls of a derivative. -/
def calls (t v : ℕ → Rat) (i : ℕ) : Call Rat Rat := ⟨t i, v i⟩

/-- The slopes between the inputs. -/
def slopes (t v : ℕ → Rat) : ℕ → Rat
  | 0 => 0
  | i + 1 => (v (i + 1) - v i) / (t (i + 1) - t i)

theorem gives_slopes (ht : StrictMono t) (v : ℕ → Rat) (began : Option Rat) (n : ℕ) :
    unlimited.Gives began ((List.range n).map (calls t v)) ((List.range n).map (slopes t v)) := by
  let memory : ℕ → State Rat
    | 0 => ⟨0, none⟩
    | i + 1 => ⟨slopes t v i, some (v i, t i)⟩
  refine ⟨memory n, Block.Runs.range memory n fun i _ => ?_⟩
  cases i with
  | zero => rfl
  | succ i =>
    have later : 0 < t (i + 1) - t i := sub_pos.2 (ht (Nat.lt_succ_self i))
    have divided : quotient (t (i + 1)) (memory (i + 1)) (v (i + 1)) = slopes t v (i + 1) := by
      simp [quotient, memory, slopes, later]
    show Except.ok (quotient _ _ _, (_ : State Rat)) = _
    simp only [calls, divided]
    rfl

end Derivative

/-! ## One after the other -/

/-- The slope of the sums at a call is that of the input that was added there. -/
theorem slopes_sums (ht : StrictMono t) (k start : Rat) (v : ℕ → Rat) (i : ℕ) :
    Derivative.slopes t (Integrator.sums k start t v) i = if i = 0 then 0 else k * v i := by
  cases i with
  | zero => rfl
  | succ i =>
    have later : t (i + 1) - t i ≠ 0 := (sub_pos.2 (ht (Nat.lt_succ_self i))).ne'
    rw [if_neg (Nat.succ_ne_zero i), Derivative.slopes, Integrator.sums]
    field_simp
    ring

/-- The sums of the slopes add up to what the input has moved. -/
theorem sums_slopes (ht : StrictMono t) (k start : Rat) (v : ℕ → Rat) (i : ℕ) :
    Integrator.sums k start t (Derivative.slopes t v) i = start + k * (v i - v 0) := by
  induction i with
  | zero => simp [Integrator.sums]
  | succ i ih =>
    have later : t (i + 1) - t i ≠ 0 := (sub_pos.2 (ht (Nat.lt_succ_self i))).ne'
    rw [Integrator.sums, ih, Derivative.slopes]
    field_simp
    ring

/-- **Each undoes the other.**  At times that ascend, and with the trigger low, the derivative of an
integral gives the inputs times the gain from the second call on, and the integral of a derivative
gives what the inputs have moved since the first call, times the gain.  The derivative is the one
without a limit, which in binary floating point is the block with an infinite limit. -/
theorem integration_undone (ht : StrictMono t) (k start : Rat) (u resetTo : ℕ → Rat) :
    Derivative.block (1.0 / 0.0 : Float) 0 = .ok Derivative.unlimited ∧
    ∃ integrator, Integrator.block k start = .ok integrator ∧
      ∃ integral slope : ℕ → Rat, ∀ (began : Option Rat) (n : ℕ),
        integrator.Gives began ((List.range n).map (Integrator.calls t u resetTo))
            ((List.range n).map integral) ∧
          Derivative.unlimited.Gives began ((List.range n).map (Derivative.calls t integral))
            ((List.range n).map fun i => if i = 0 then 0 else k * u i) ∧
          Derivative.unlimited.Gives began ((List.range n).map (Derivative.calls t u))
            ((List.range n).map slope) ∧
          integrator.Gives began ((List.range n).map (Integrator.calls t slope resetTo))
            ((List.range n).map fun i => start + k * (u i - u 0)) := by
  obtain ⟨integrator, built⟩ : ∃ b, Integrator.block k start = .ok b :=
    ⟨_, Integrator.block_eq_ok_iff.2 ⟨⟨Scalar.isFinite_exact k, Scalar.isFinite_exact start⟩, rfl⟩⟩
  refine ⟨Derivative.block_infinite, integrator, built, Integrator.sums k start t u,
    Derivative.slopes t u, fun began n => ⟨?_, ?_, ?_, ?_⟩⟩
  · exact Integrator.gives_sums ht built u resetTo began n
  · rw [← funext (slopes_sums ht k start u)]
    exact Derivative.gives_slopes ht (Integrator.sums k start t u) began n
  · exact Derivative.gives_slopes ht u began n
  · rw [← funext (sums_slopes ht k start u)]
    exact Integrator.gives_sums ht built (Derivative.slopes t u) resetTo began n

/-- Steps that grow longer, and an input that goes down and up. -/
theorem integration_undone_growing :
    ∃ integrator, Integrator.block (2 : Rat) 5 = .ok integrator ∧
      integrator.Gives none [⟨0, 4, false, 0⟩, ⟨1, 1, false, 0⟩, ⟨4, 0, false, 0⟩, ⟨9, 1, false, 0⟩]
        [5, 7, 7, 17] ∧
      Derivative.unlimited.Gives none [⟨0, 5⟩, ⟨1, 7⟩, ⟨4, 7⟩, ⟨(9 : Rat), 17⟩] [0, 2, 0, 2] ∧
      Derivative.unlimited.Gives none [⟨0, 4⟩, ⟨1, 1⟩, ⟨4, 0⟩, ⟨(9 : Rat), 1⟩]
        [0, -3, -1 / 3, 1 / 5] ∧
      integrator.Gives none
        [⟨0, 0, false, 0⟩, ⟨1, -3, false, 0⟩, ⟨4, -1 / 3, false, 0⟩, ⟨9, 1 / 5, false, 0⟩]
        [5, -1, -3, -1] := by
  let t (i : ℕ) : Rat := i ^ 2
  let u (i : ℕ) : Rat := (i - 2) ^ 2
  have ascending : StrictMono t := by
    refine strictMono_nat_of_lt_succ fun i => ?_
    have nonneg : (0 : Rat) ≤ i := Nat.cast_nonneg i
    have wider : t (i + 1) = t i + (2 * i + 1) := by
      simp only [t]
      push_cast
      ring
    rw [wider]
    linarith
  obtain ⟨-, integrator, built, integral, slope, gives⟩ :=
    integration_undone ascending 2 5 u fun _ => 0
  obtain ⟨summed, sloped, differenced, back⟩ := gives none 4
  have integrals : (List.range 4).map integral = [5, 7, 7, 17] := by
    rw [summed.unique (Integrator.gives_sums ascending built u _ none 4)]
    decide +kernel
  have slopes : (List.range 4).map slope = [0, -3, -1 / 3, 1 / 5] := by
    rw [differenced.unique (Derivative.gives_slopes ascending u none 4)]
    decide +kernel
  have times : (List.range 4).map t = [0, 1, 4, 9] := by decide +kernel
  have inputs : (List.range 4).map u = [4, 1, 0, 1] := by decide +kernel
  -- the calls by their times and inputs
  have derived (v : ℕ → Rat) : (List.range 4).map (Derivative.calls t v) =
      ((List.range 4).map t).zipWith Call.mk ((List.range 4).map v) := rfl
  have integrated (v : ℕ → Rat) : (List.range 4).map (Integrator.calls t v fun _ => 0) =
      ((List.range 4).map t).zipWith (fun t v => ⟨t, v, false, 0⟩) ((List.range 4).map v) := rfl
  rw [integrated, times, inputs, integrals] at summed
  rw [derived, times, integrals] at sloped
  rw [derived, times, inputs, slopes] at differenced
  rw [integrated, times, slopes] at back
  have gained : (List.range 4).map (fun i => if i = 0 then 0 else 2 * u i) = [0, 2, 0, 2] := by
    decide +kernel
  have moved : (List.range 4).map (fun i => 5 + 2 * (u i - u 0)) = [5, -1, -3, -1] := by
    decide +kernel
  rw [gained] at sloped
  rw [moved] at back
  exact ⟨integrator, built, summed, sloped, differenced, back⟩

end ControlBlocks

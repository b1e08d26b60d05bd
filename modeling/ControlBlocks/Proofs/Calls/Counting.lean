import ControlBlocks.Proofs.Calls.Basic
import ControlBlocks.Proofs.Calls.Stretches
import ControlBlocks.Sequential.Bistable
import Mathlib.Algebra.Ring.Parity
import Mathlib.Data.Finset.Card
import Mathlib.Data.Finset.Range
import Mathlib.Logic.Function.Iterate

/-!
# What a latch, a toggle and a counter count

The three are cleared by a level and moved by the rising edges of an input.  They move at the same
edges: those that come after the last call at which they were cleared.

* `signal` — the inputs, which rise at the edges;
* `edges` — how many of the first calls are edges that no clearing has undone;
* `outputAt_step` — a bistable has turned over at each of these edges;
* `Counter.call_edges` — a counter has counted them;
* `edges_told` — what the three give at every call.
-/

set_option autoImplicit false

namespace ControlBlocks.Bistable

variable {α : Type} {calls : ℕ → Call α Input} {turn : Bool → Bool} {n m : ℕ}

/-! ## Edges -/

/-- The inputs of the calls. -/
abbrev signal (calls : ℕ → Call α Input) : ℕ → Bool := fun m => (calls m).input.u

/-- How many edges there are among the first `n` calls, after all at which it was cleared. -/
def edges (calls : ℕ → Call α Input) (n : ℕ) : ℕ :=
  ((Finset.range n).filter fun m =>
    Rises (signal calls) m ∧ ∀ j < n, (calls j).input.clear = true → j < m).card

@[simp] theorem edges_zero (calls : ℕ → Call α Input) : edges calls 0 = 0 := rfl

theorem edges_le (calls : ℕ → Call α Input) (n : ℕ) : edges calls n ≤ n :=
  (Finset.card_filter_le _ _).trans (Finset.card_range n).le

/-- A call at which it is cleared leaves no edges. -/
theorem edges_succ_of_clear (h : (calls n).input.clear = true) : edges calls (n + 1) = 0 := by
  rw [edges, Finset.card_eq_zero, Finset.filter_eq_empty_iff]
  rintro m hm ⟨-, hafter⟩
  have : n < m := hafter n (Nat.lt_succ_self n) h
  have := Finset.mem_range.1 hm
  omega

/-- Any other call adds an edge where the input rises. -/
theorem edges_succ_of_not_clear (h : (calls n).input.clear = false) :
    edges calls (n + 1) = edges calls n + if Rises (signal calls) n then 1 else 0 := by
  have old : ∀ m, (∀ j < n + 1, (calls j).input.clear = true → j < m) ↔
      ∀ j < n, (calls j).input.clear = true → j < m := by
    refine fun m => ⟨fun hafter j hj => hafter j (by omega), fun hafter j hj hclear => ?_⟩
    have : j ≠ n := by
      rintro rfl
      exact absurd hclear (by simp [h])
    exact hafter j (by omega) hclear
  have last : ∀ j < n, (calls j).input.clear = true → j < n := fun j hj _ => hj
  simp only [edges, old, Finset.range_add_one, Finset.filter_insert]
  split
  · rename_i hrises
    rw [Finset.card_insert_of_notMem (by simp), if_pos hrises.1]
  · rename_i hnot
    rw [if_neg fun hrises => hnot ⟨hrises, last⟩, add_zero]

/-! ## Bistables -/

/-- Before the call `n`, a bistable remembers the input of the call before, and has turned over at
each of the edges. -/
theorem memoryAt_step (turn : Bool → Bool) (calls : ℕ → Call α Input) (n : ℕ) :
    let s := Block.memoryAt (fun _ => step turn) initial calls n
    s.y = turn^[edges calls n] false ∧ s.u = previous (signal calls) n := by
  induction n with
  | zero => exact ⟨rfl, rfl⟩
  | succ n ih =>
    obtain ⟨hy, hu⟩ := ih
    refine ⟨?_, rfl⟩
    simp only [Block.memoryAt, step, hy, hu]
    cases hclear : (calls n).input.clear with
    | true => simp [edges_succ_of_clear hclear]
    | false =>
      rw [edges_succ_of_not_clear hclear]
      by_cases hrises : Rises (signal calls) n
      · simp [rises_iff.1 hrises, hrises, Function.iterate_succ_apply']
      · simp [mt rises_iff.2 hrises, hrises]

/-- The output at a call. -/
theorem outputAt_step (turn : Bool → Bool) (calls : ℕ → Call α Input) (i : ℕ) :
    Block.outputAt (fun _ => step turn) initial calls i = turn^[edges calls (i + 1)] false :=
  (memoryAt_step turn calls (i + 1)).1

theorem iterate_set (k : ℕ) : (fun _ => true)^[k] false = decide (0 < k) := by
  cases k with
  | zero => rfl
  | succ k => simp [Function.iterate_succ_apply']

theorem iterate_not (k : ℕ) : (fun y => !y)^[k] false = decide (Odd k) := by
  induction k with
  | zero => rfl
  | succ k ih =>
    rw [Function.iterate_succ_apply', ih]
    by_cases hodd : Odd k
    · simp [hodd, Nat.odd_add_one]
    · simp [hodd, Nat.odd_add_one]

/-! ## Counters -/

/-- The same call of a counter, which is triggered by the input and reset by the clearing. -/
def counting (c : Call α Input) : Call α Counter.Input := c.map fun d => ⟨d.u, d.clear⟩

/-- A counter that starts at zero counts the edges, and has room for one more call. -/
theorem Counter.call_edges [Scalar α] (calls : ℕ → Call α Input) (hn : n + 1 < 2 ^ 63) :
    (Counter.block 0).call (counting (calls n)) ⟨edges calls n, previous (signal calls) n⟩ =
      .ok ((edges calls (n + 1) : ℤ), ⟨edges calls (n + 1), previous (signal calls) (n + 1)⟩) := by
  have room : InInt64 ((edges calls n : ℤ) + 1) := by
    have := edges_le calls n
    unfold InInt64
    omega
  show Counter.step 0 ⟨edges calls n, previous (signal calls) n⟩
    ⟨(calls n).input.u, (calls n).input.clear⟩ = _
  unfold Counter.step
  cases hclear : (calls n).input.clear with
  | true =>
    rw [edges_succ_of_clear hclear]
    rfl
  | false =>
    rw [edges_succ_of_not_clear hclear]
    by_cases hrises : Rises (signal calls) n
    · simp [rises_iff.1 hrises, hrises, room]
    · simp [mt rises_iff.2 hrises, hrises]

/-- **The same edges.**  A latch is on just if there is an edge since it was cleared, a toggle just
if their number is odd, and a counter gives that number, as long as there are not so many calls that
it might run out of range. -/
theorem edges_told [Scalar α] (began : Option α) (calls : ℕ → Call α Input) (hn : n < 2 ^ 63) :
    latch.Gives began ((List.range n).map calls)
        ((List.range n).map fun i => decide (0 < edges calls (i + 1))) ∧
      toggle.Gives began ((List.range n).map calls)
        ((List.range n).map fun i => decide (Odd (edges calls (i + 1)))) ∧
      (Counter.block 0).Gives began ((List.range n).map fun i => counting (calls i))
        ((List.range n).map fun i => (edges calls (i + 1) : ℤ)) := by
  have bistable (name : String) (turn : Bool → Bool) :
      (Block.automaton name initial (step turn)).Gives began ((List.range n).map calls)
        ((List.range n).map fun i => turn^[edges calls (i + 1)] false) := by
    have steps : (Block.automaton (α := α) name initial (step turn)).StepsAs fun _ => step turn :=
      fun _ _ => rfl
    rw [← funext fun i => outputAt_step turn calls i]
    exact steps.gives_range began calls n
  refine ⟨?latched, ?toggled, ?counted⟩
  case latched =>
    have gives := bistable "Latch" fun _ => true
    simp only [iterate_set] at gives
    exact gives
  case toggled =>
    have gives := bistable "Toggle" fun y => !y
    simp only [iterate_not] at gives
    exact gives
  case counted =>
    let memory (i : ℕ) : Counter.State := ⟨edges calls i, previous (signal calls) i⟩
    exact ⟨memory n, Block.Runs.range memory n fun i hi =>
      Counter.call_edges calls (by omega)⟩

/-- Two edges that are cleared; one while it is cleared; none where the clearing ends with the
input still true; and one more. -/
def cleared (i : ℕ) : Call Rat Input :=
  ⟨i, [true, false, true, false, true, true, false, true].getD i false, [3, 4].contains i⟩

/-- The edge while it is cleared is lost, and the input that stays true afterwards is no edge. -/
theorem edges_told_cleared :
    latch.Gives none ((List.range 8).map cleared)
        [true, true, true, false, false, false, false, true] ∧
      toggle.Gives none ((List.range 8).map cleared)
        [true, true, false, false, false, false, false, true] ∧
      (Counter.block 0).Gives none ((List.range 8).map fun i => counting (cleared i))
        [1, 1, 2, 0, 0, 0, 0, 1] := by
  have counts : (List.range 8).map (fun i => edges cleared (i + 1)) = [1, 1, 2, 0, 0, 0, 0, 1] := by
    decide
  obtain ⟨latched, toggled, counted⟩ := edges_told none cleared (show 8 < 2 ^ 63 by decide)
  have on := congrArg (List.map fun k => decide (0 < k)) counts
  have odd := congrArg (List.map fun k => decide (Odd k)) counts
  have number := congrArg (List.map fun k : ℕ => (k : ℤ)) counts
  simp only [List.map_map, Function.comp_def] at on odd number
  rw [on] at latched
  rw [odd] at toggled
  rw [number] at counted
  exact ⟨latched, toggled, counted⟩

end ControlBlocks.Bistable

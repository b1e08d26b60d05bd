import ControlBlocks.Block.Basic

/-!
# Calls of a block

A block that is evaluated at given times, on given inputs.

* `Call` — a time and an input; `Block.call` — one evaluation;
* `Block.Runs` — evaluations one after another, with their outputs;
* `Block.Runs.append_iff` — a run may be cut anywhere;
* `Block.Runs.keeps` — what every call keeps holds after a run;
* `Block.Reached` — the memories that runs from a start lead to;
* `Block.StepsAs` — the blocks that never fail, and what they do instead;
* `Block.StepsAs.map_runs` — what a second one makes of each call of a first, it makes of its runs;
* `Block.Gives` — what a block gives at all of its calls;
* `Block.outputs`, `outputAt`, `memoryAt` — the same where it never fails, over lists and sequences;
* `Block.map_outputs_eq` — two blocks that are alike at each call are alike at all of them.
-/

set_option autoImplicit false

namespace ControlBlocks

/-- When a block is evaluated, and on what. -/
structure Call (α ι : Type) where
  time : α
  input : ι

/-- The call at the same time on another input. -/
def Call.map {α ι κ : Type} (f : ι → κ) (c : Call α ι) : Call α κ := ⟨c.time, f c.input⟩

namespace Block

variable {α ι σ ο : Type}

/-- One evaluation. -/
def call (b : Block α ι σ ο) (c : Call α ι) (s : σ) : Except (Fault α) (ο × σ) :=
  b.step (some c.time) s c.input

/-- `b.Runs s calls ys last`: the calls, one after another, give the outputs `ys` and lead from
the memory `s` to `last`. -/
inductive Runs (b : Block α ι σ ο) : σ → List (Call α ι) → List ο → σ → Prop where
  | nil (s : σ) : Runs b s [] [] s
  | cons {s s' last : σ} {c : Call α ι} {calls : List (Call α ι)} {y : ο} {ys : List ο}
      (first : b.call c s = .ok (y, s')) (rest : Runs b s' calls ys last) :
      Runs b s (c :: calls) (y :: ys) last

/-- Started at a time, or on no clock, a block gives the outputs `ys` at the calls, one at each. -/
def Gives (b : Block α ι σ ο) (began : Option α) (calls : List (Call α ι)) (ys : List ο) : Prop :=
  ∃ last, b.Runs (b.start began) calls ys last

/-- The memories that a block comes to, by calls at any times and from a start at any time. -/
def Reached (b : Block α ι σ ο) (s : σ) : Prop :=
  ∃ began calls ys, b.Runs (b.start began) calls ys s

section Runs

variable {b : Block α ι σ ο} {s last : σ} {ys : List ο} {c : Call α ι}
  {calls more : List (Call α ι)}

/-- A run may be cut anywhere. -/
theorem Runs.append_iff :
    b.Runs s (calls ++ more) ys last ↔
      ∃ s' ys₁ ys₂, b.Runs s calls ys₁ s' ∧ b.Runs s' more ys₂ last ∧ ys = ys₁ ++ ys₂ := by
  constructor
  · intro h
    induction calls generalizing s ys with
    | nil => exact ⟨s, [], ys, .nil s, h, rfl⟩
    | cons c calls ih =>
      cases h with
      | cons first rest =>
        obtain ⟨s', ys₁, ys₂, before, after, rfl⟩ := ih rest
        exact ⟨s', _ :: ys₁, ys₂, .cons first before, after, rfl⟩
  · rintro ⟨s', ys₁, ys₂, before, after, rfl⟩
    induction before with
    | nil => exact after
    | cons first rest ih => exact .cons first (ih after)

/-- A run of one call. -/
theorem Runs.singleton_iff : b.Runs s [c] ys last ↔ ∃ y, b.call c s = .ok (y, last) ∧ ys = [y] := by
  constructor
  · intro h
    cases h with
    | cons first rest =>
      cases rest
      exact ⟨_, first, rfl⟩
  · rintro ⟨y, h, rfl⟩
    exact .cons h (.nil last)

/-- The same calls of the same memory give the same. -/
theorem Runs.unique {last' : σ} {ys' : List ο} (h : b.Runs s calls ys last)
    (h' : b.Runs s calls ys' last') : ys = ys' ∧ last = last' := by
  induction h generalizing ys' with
  | nil =>
    cases h'
    exact ⟨rfl, rfl⟩
  | cons first rest ih =>
    cases h' with
    | cons first' rest' =>
      cases Except.ok.inj (first.symm.trans first')
      obtain ⟨rfl, rfl⟩ := ih rest'
      exact ⟨rfl, rfl⟩

theorem Gives.unique {began : Option α} {ys' : List ο} (h : b.Gives began calls ys)
    (h' : b.Gives began calls ys') : ys = ys' := by
  obtain ⟨last, run⟩ := h
  obtain ⟨last', run'⟩ := h'
  exact (run.unique run').1

/-- The first calls of a sequence, where the memory before each of them is known. -/
theorem Runs.range (memory : Nat → σ) {calls : Nat → Call α ι} {y : Nat → ο} (n : Nat)
    (hcall : ∀ i < n, b.call (calls i) (memory i) = .ok (y i, memory (i + 1))) :
    b.Runs (memory 0) ((List.range n).map calls) ((List.range n).map y) (memory n) := by
  induction n with
  | zero => exact .nil _
  | succ n ih =>
    rw [List.range_succ, List.map_append, List.map_append]
    refine append_iff.2 ⟨_, _, _, ih fun i hi => hcall i (Nat.lt_succ_of_lt hi), ?_, rfl⟩
    exact singleton_iff.2 ⟨_, hcall n (Nat.lt_succ_self n), rfl⟩

/-- What holds of a memory and of the calls that are to come, and is kept as they come, holds in
the end. -/
theorem Runs.keeps (P : σ → List (Call α ι) → Prop)
    (hcall : ∀ {s s' : σ} {y : ο} {c : Call α ι} {calls : List (Call α ι)},
      P s (c :: calls) → b.call c s = .ok (y, s') → P s' calls)
    (h : b.Runs s calls ys last) (hs : P s calls) : P last [] := by
  induction h with
  | nil => exact hs
  | cons first rest ih => exact ih (hcall hs first)

/-- What holds at every start and is kept by every call holds of all memories. -/
theorem Reached.invariant (P : σ → Prop) (hstart : ∀ began, P (b.start began))
    (hcall : ∀ {s s' : σ} {y : ο} {c : Call α ι}, P s → b.call c s = .ok (y, s') → P s')
    (h : b.Reached s) : P s := by
  obtain ⟨began, calls, ys, run⟩ := h
  exact run.keeps (fun s _ => P s) hcall (hstart began)

end Runs

/-! ## Blocks that never fail -/

section StepsAs

variable {b : Block α ι σ ο} {f : α → σ → ι → ο × σ}

/-- The block never fails at a call, and steps as `f` does. -/
def StepsAs (b : Block α ι σ ο) (f : α → σ → ι → ο × σ) : Prop :=
  ∀ c s, b.call c s = .ok (f c.time s c.input)

theorem timed_stepsAs {name : String} {start : σ} : (timed name start f).StepsAs f :=
  fun _ _ => rfl

theorem automaton_stepsAs {name : String} {start : σ} {f : σ → ι → ο × σ} :
    (automaton (α := α) name start f).StepsAs fun _ => f :=
  fun _ _ => rfl

theorem StepsAs.exists_runs (hb : b.StepsAs f) (s : σ) (calls : List (Call α ι)) :
    ∃ ys last, b.Runs s calls ys last := by
  induction calls generalizing s with
  | nil => exact ⟨[], s, .nil s⟩
  | cons c calls ih =>
    obtain ⟨ys, last, rest⟩ := ih (f c.time s c.input).2
    exact ⟨_ :: ys, last, .cons (hb c s) rest⟩

/-- A second block makes calls of its own of the calls of the first, a memory of its memory, and an
output of its output.  If its step keeps to that, so do its runs. -/
theorem StepsAs.map_runs {ι' σ' ο' : Type} {b' : Block α ι' σ' ο'} {f' : α → σ' → ι' → ο' × σ'}
    {call : Call α ι → Call α ι'} {memory : σ → σ'} {output : ο → ο'} (hb : b.StepsAs f)
    (hb' : b'.StepsAs f')
    (hstep : ∀ c s, f' (call c).time (memory s) (call c).input =
      (output (f c.time s c.input).1, memory (f c.time s c.input).2))
    {s last : σ} {calls : List (Call α ι)} {ys : List ο} (h : b.Runs s calls ys last) :
    b'.Runs (memory s) (calls.map call) (ys.map output) (memory last) := by
  induction h with
  | nil s => exact .nil (memory s)
  | cons first rest ih =>
    rw [hb, Except.ok.injEq] at first
    refine .cons ?_ ih
    rw [hb', hstep, first]

theorem StepsAs.invariant (hb : b.StepsAs f) (P : σ → Prop) (hstart : ∀ began, P (b.start began))
    (hstep : ∀ now s u, P s → P (f now s u).2) {s : σ} (h : b.Reached s) : P s := by
  refine h.invariant P hstart ?_
  intro s s' y c hs hcall
  rw [hb, Except.ok.injEq] at hcall
  have := hstep c.time s c.input hs
  rwa [hcall] at this

end StepsAs

/-! ## Outputs of blocks that never fail -/

section Outputs

variable {f : α → σ → ι → ο × σ}

/-- The outputs of a step at one call after another. -/
def outputs (f : α → σ → ι → ο × σ) : σ → List (Call α ι) → List ο
  | _, [] => []
  | s, c :: calls => (f c.time s c.input).1 :: outputs f (f c.time s c.input).2 calls

theorem StepsAs.gives {b : Block α ι σ ο} (hb : b.StepsAs f) (began : Option α)
    (calls : List (Call α ι)) : b.Gives began calls (outputs f (b.start began) calls) := by
  unfold Gives
  generalize b.start began = s
  induction calls generalizing s with
  | nil => exact ⟨s, .nil s⟩
  | cons c calls ih =>
    obtain ⟨last, rest⟩ := ih (f c.time s c.input).2
    exact ⟨last, .cons (hb c s) rest⟩

theorem timed_gives (name : String) (start : σ) (f : α → σ → ι → ο × σ) (began : Option α)
    (calls : List (Call α ι)) :
    (timed name start f).Gives began calls (outputs f start calls) :=
  timed_stepsAs.gives began calls

/-- Before the call `i` of a sequence, the memory. -/
def memoryAt (f : α → σ → ι → ο × σ) (s : σ) (calls : Nat → Call α ι) : Nat → σ
  | 0 => s
  | i + 1 => (f (calls i).time (memoryAt f s calls i) (calls i).input).2

/-- The output at the call `i` of a sequence. -/
def outputAt (f : α → σ → ι → ο × σ) (s : σ) (calls : Nat → Call α ι) (i : Nat) : ο :=
  (f (calls i).time (memoryAt f s calls i) (calls i).input).1

/-- What holds before the first call and is kept by each call holds before any call. -/
theorem memoryAt_invariant {s : σ} {calls : Nat → Call α ι} (P : Nat → σ → Prop) (hstart : P 0 s)
    (hstep : ∀ i s, P i s → P (i + 1) (f (calls i).time s (calls i).input).2) (i : Nat) :
    P i (memoryAt f s calls i) := by
  induction i with
  | zero => exact hstart
  | succ i ih => exact hstep i _ ih

/-- The first calls of a sequence. -/
theorem StepsAs.runs_range {b : Block α ι σ ο} (hb : b.StepsAs f) (s : σ) (calls : Nat → Call α ι)
    (n : Nat) :
    b.Runs s ((List.range n).map calls) ((List.range n).map (outputAt f s calls))
      (memoryAt f s calls n) :=
  Runs.range (memoryAt f s calls) n fun i _ => hb (calls i) _

theorem StepsAs.gives_range {b : Block α ι σ ο} (hb : b.StepsAs f) (began : Option α)
    (calls : Nat → Call α ι) (n : Nat) :
    b.Gives began ((List.range n).map calls)
      ((List.range n).map (outputAt f (b.start began) calls)) :=
  ⟨_, hb.runs_range (b.start began) calls n⟩

/-- **Alike at each call, alike at all.**  A second step makes calls of its own of the calls of the
first.  If a relation between their memories and the calls to come gives outputs that look the
same, and is kept, then all their outputs look the same. -/
theorem map_outputs_eq {ι' σ' ο' ω : Type} {f' : α → σ' → ι' → ο' × σ'}
    {call : Call α ι → Call α ι'} {look : ο → ω} {look' : ο' → ω}
    (R : σ → σ' → List (Call α ι) → Prop)
    (hstep : ∀ {s s' c calls}, R s s' (c :: calls) →
      look (f c.time s c.input).1 = look' (f' (call c).time s' (call c).input).1 ∧
        R (f c.time s c.input).2 (f' (call c).time s' (call c).input).2 calls)
    {s : σ} {s' : σ'} {calls : List (Call α ι)} (h : R s s' calls) :
    (outputs f s calls).map look = (outputs f' s' (calls.map call)).map look' := by
  induction calls generalizing s s' with
  | nil => rfl
  | cons c calls ih =>
    obtain ⟨hlook, hrest⟩ := hstep h
    simp only [List.map_cons, outputs]
    rw [hlook, ih hrest]

end Outputs

end Block

end ControlBlocks

import ControlBlocks.Block.Component

/-!
# Blocks in place

A block gives its output and its new memory together, or neither, and is reset by starting it
again.  A procedure works on one memory that it keeps: it stores into it field by field, and what it
has stored before it fails stays stored.

* `Program` — what works on a memory; `Program.Performs` — it does what a step says and never
  fails;
* `Procedure` — the evaluation and the reset of a block as programs;
* `Procedure.Carries` — they do what the block does, and a failed evaluation leaves the memory as
  it was;
* `Component.perform`, `restart` — the evaluation and the reset of a component by a procedure, which
  are those by its block (`evaluate_eq_perform`, `restart_eq_startOn`).
-/

set_option autoImplicit false

namespace ControlBlocks

/-- A program on a memory of type `σ`.  A failure comes with the memory as it was left. -/
abbrev Program (α σ ο : Type) := EStateM (Fault α) σ ο

namespace Program

variable {α ι σ ο : Type}

@[simp] theorem run_map {ο' : Type} (f : ο → ο') (p : Program α σ ο) (s : σ) :
    (f <$> p).run s =
      match p.run s with
      | .ok y s' => .ok (f y) s'
      | .error e s' => .error e s' := by
  rw [← bind_pure_comp, EStateM.run_bind]
  cases p.run s <;> simp

@[simp] theorem run_ite {p : Prop} [Decidable p] (x y : Program α σ ο) (s : σ) :
    (if p then x else y).run s = if p then x.run s else y.run s :=
  apply_ite (·.run s) p x y

/-- The program gives the output and leaves the memory of `f`, and never fails. -/
def Performs (p : Program α σ ο) (f : σ → ο × σ) : Prop :=
  ∀ s, p.run s = .ok (f s).1 (f s).2

/-- The time; a detached program fails here. -/
def now (name : String) (time : Option α) : Program α σ α :=
  match time with
  | some t => pure t
  | none => throw (.missingClock name)

/-- A program that looks at the clock before anything else. -/
def afterClock (name : String) (body : α → ι → Program α σ ο) (time : Option α) (u : ι) :
    Program α σ ο := do
  let t ← now name time
  body t u

end Program

/-- The evaluation and the reset of a block, each on the memory and at a time. -/
structure Procedure (α ι σ ο : Type) where
  evaluate : Option α → ι → Program α σ ο
  reset : Option α → Program α σ Unit

namespace Procedure

variable {α ι σ ο : Type}

/-- The evaluation succeeds with the output and the memory of the block, or fails as the block does
and leaves the memory as it was; the reset leaves the memory that the block starts with. -/
structure Carries (p : Procedure α ι σ ο) (b : Block α ι σ ο) : Prop where
  evaluate : ∀ time u s, (p.evaluate time u).run s =
    match b.step time s u with
    | .ok (y, s') => .ok y s'
    | .error e => .error e s
  reset : ∀ time s, (p.reset time).run s = .ok () (b.start time)

/-- A block without memory: there is nothing to store. -/
def forgetful (b : Block α ι Unit ο) : Procedure α ι Unit ο where
  evaluate time u := MonadExcept.ofExcept ((b.step time () u).map Prod.fst)
  reset _ := pure ()

theorem carries_forgetful (b : Block α ι Unit ο) : Carries (forgetful b) b where
  evaluate := by
    intro time u s
    show EStateM.run (MonadExcept.ofExcept ((b.step time s u).map Prod.fst)) s = _
    cases b.step time s u with
    | ok r => rfl
    | error e => rfl
  reset := fun _ _ => rfl

/-- A block that never fails: its new memory is stored at once, and a reset stores `fresh`. -/
def steady (fresh : σ) (f : σ → ι → ο × σ) : Procedure α ι σ ο where
  evaluate _ u := modifyGet (f · u)
  reset _ := set fresh

theorem carries_steady (name : String) (start : σ) (f : σ → ι → ο × σ) :
    Carries (α := α) (steady start f) (.automaton name start f) where
  evaluate := fun _ _ _ => rfl
  reset := fun _ _ => rfl

/-- A block that looks at the clock and then works on its memory; a reset stores `fresh`. -/
def timed (name : String) (fresh : σ) (body : α → ι → Program α σ ο) : Procedure α ι σ ο where
  evaluate := Program.afterClock name body
  reset _ := set fresh

/-- Nothing is stored before the look at the clock, and nothing fails after it. -/
theorem carries_timed {name : String} {start : σ} {f : α → σ → ι → ο × σ}
    {body : α → ι → Program α σ ο} (h : ∀ t u, (body t u).Performs (f t · u)) :
    Carries (timed name start body) (.timed name start f) where
  evaluate := by
    intro time u s
    cases time with
    | none => rfl
    | some t => exact h t u s
  reset := fun _ _ => rfl

end Procedure

namespace Component

variable {α : Type} (c : Component α) (p : Procedure α c.Input c.State c.Output) (attached : Bool)

/-- An evaluation by a procedure: the memory after it is as the program left it, also where that
failed. -/
def perform (wall : α) (clock : Clock α) (s : c.State) (u : c.Input) :
    Except (Fault α) c.Output × c.State × Clock α :=
  let (time, clock) := Block.seen attached (c.block.clockUse ≠ .never) wall clock
  match (p.evaluate time u).run s with
  | .ok y s => (.ok y, s, clock)
  | .error e s => (.error e, s, clock)

/-- A reset by a procedure. -/
def restart (wall : α) (clock : Clock α) (s : c.State) : c.State × Clock α :=
  let (time, clock) := Block.seen attached (c.block.clockUse = .always) wall clock
  match (p.reset time).run s with
  | .ok _ s => (s, clock)
  | .error _ s => (s, clock)

/-- The component at work with a memory, and the clock. -/
def resume (x : c.State × Clock α) : Running α × Clock α := (⟨c, attached, x.1⟩, x.2)

theorem resume_inj {x x' : c.State × Clock α} :
    c.resume attached x = c.resume attached x' ↔ x = x' := by
  obtain ⟨s, clock⟩ := x
  obtain ⟨s', clock'⟩ := x'
  simp [resume]

variable {p}

theorem evaluate_eq_perform (h : p.Carries c.block) (wall : α) (clock : Clock α) (s : c.State)
    (u : c.Input) :
    Running.evaluate ⟨c, attached, s⟩ wall clock u =
      ((c.perform p attached wall clock s u).1,
        c.resume attached (c.perform p attached wall clock s u).2) := by
  unfold perform Running.evaluate Block.evalOn
  obtain ⟨time, clock⟩ := Block.seen attached (c.block.clockUse ≠ .never) wall clock
  have hrun := h.evaluate time u s
  dsimp only
  rw [hrun]
  cases c.block.step time s u with
  | ok y => rfl
  | error e => rfl

theorem restart_eq_startOn (h : p.Carries c.block) (wall : α) (clock : Clock α) (s : c.State) :
    c.restart p attached wall clock s = c.block.startOn attached wall clock := by
  unfold restart Block.startOn
  obtain ⟨time, clock⟩ := Block.seen attached (c.block.clockUse = .always) wall clock
  have hrun := h.reset time s
  dsimp only
  rw [hrun]

/-- Where an evaluation fails, the memory is the one from before, and the block fails at the time
that it saw. -/
theorem perform_eq_error (h : p.Carries c.block) {wall : α} {clock clock' : Clock α}
    {s s' : c.State} {u : c.Input} {e : Fault α}
    (hfail : c.perform p attached wall clock s u = (.error e, s', clock')) :
    s' = s ∧
      c.block.step (Block.seen attached (c.block.clockUse ≠ .never) wall clock).1 s u =
        .error e := by
  unfold perform at hfail
  have hrun := h.evaluate (Block.seen attached (c.block.clockUse ≠ .never) wall clock).1 u s
  dsimp only at hfail
  rw [hrun] at hfail
  cases hstep : c.block.step (Block.seen attached (c.block.clockUse ≠ .never) wall clock).1 s u with
  | ok y =>
    rw [hstep] at hfail
    cases hfail
  | error e' =>
    rw [hstep] at hfail
    cases hfail
    exact ⟨rfl, rfl⟩

end Component

end ControlBlocks

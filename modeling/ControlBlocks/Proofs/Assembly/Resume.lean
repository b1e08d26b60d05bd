import ControlBlocks.Checkpoint.AutoSaver
import ControlBlocks.Proofs.Assembly.Basic
import ControlBlocks.Proofs.Run.Resume

/-!
# Runs taken up from a checkpoint

A run of an assembly that saves, and another that starts from what was saved.

* `Assembly.restore_of_save` — what was saved is restored into any memory of the same blocks;
* `Assembly.resume_exact` — the second run does what the first had left to do.
-/

set_option autoImplicit false

namespace ControlBlocks

universe u

open Checkpoint (Directory)
open Run (Hook Options Scene Course)

/-- Saving changes neither the model nor the clock. -/
theorem AutoSaver.hook_onlySaves {σ : Type u} {ο : Type} (a : AutoSaver) (m : Model Float σ ο)
    (createdAt : String) (metadata : Nat → Datum Float) :
    (a.hook m createdAt metadata).OnlySaves := by
  intro n scene
  unfold hook
  split <;> exact ⟨rfl, rfl⟩

namespace Assembly

variable {ο η : Type} {a : Assembly ο}

theorem model_onlyReads : a.model.OnlyReads := by
  intro wall c s hsim
  show c.Still (c.look wall)
  rw [Clock.look_of_simulation hsim]
  exact ⟨rfl, rfl⟩

theorem model_ignoresWall : a.model.IgnoresWall := by
  intro wall wall' c s hsim
  simp only [model, Clock.look_of_simulation hsim]

section Restore

variable {ms fresh : Memories a.parts} {c c' : Clock Float} {d d' d₂ : Directory}
  {createdAt file : String} {metadata : Datum Float}

/-- **What was saved is restored**, whatever the blocks held and whatever the clock showed. -/
theorem restore_of_save (hnames : (a.parts.map Part.name).Nodup)
    (hsave : Checkpoint.save a.model d createdAt ms c metadata = .ok (file, d'))
    (hfile : (d₂.read file : Except (Failure Float) String) = d'.read file)
    (hr : Checkpoint.Record.Readable ⟨createdAt, c, ms.snapshot, metadata⟩)
    (hclock : c.IsFinite) (hfinite : ∀ i, (ms.data i).allFinite = true)
    (hlegible : ∀ i, (ms.data i).legible = true) :
    Checkpoint.restore a.model d₂ file fresh c' = (.ok metadata.sorted, ms, c) := by
  have load := Checkpoint.load_of_save hsave hfile hr hclock ms.tidy_snapshot
  have restored : a.model.restore ms.snapshot fresh = (.ok (), ms) :=
    ms.restore_snapshot fresh hnames hfinite hlegible
  have snapshot : a.model.snapshot ms = ms.snapshot := rfl
  rw [Checkpoint.restore, load]
  simp only [snapshot, restored]
  rfl

end Restore

/-- **A run is taken up where it was saved.**  A run with all its steps recorded has gone through
turn `s`, whose hook saved the blocks and the clock.  If their values are finite, and their integers
such as their fields hold, they are restored with the metadata into any memory of the blocks, and a
run from there gives the entries after the first `s + 1` and ends as the first one did. -/
theorem resume_exact (hnames : (a.parts.map Part.name).Nodup)
    {o : Options Float} (hevery : o.recordEvery = 1)
    {hook : Hook Float (Memories a.parts) η} (hh : hook.OnlySaves)
    {scene reached last : Scene Float (Memories a.parts) η} (hsim : scene.clock.mode = .simulation)
    {wall : Float} {entries done : List (Float × ο)}
    (hrun : Run.withHook a.model hook o wall scene = (.ok entries, last))
    (course : Course a.model hook o.dt wall 0 scene done reached)
    {s : Nat} (hdone : done.length = s + 1) (hs : s < entries.length)
    {d d' d₂ : Directory} {createdAt file : String} {metadata : Datum Float}
    (hsave : Checkpoint.save a.model d createdAt reached.model reached.clock metadata =
      .ok (file, d'))
    (hfile : (d₂.read file : Except (Failure Float) String) = d'.read file)
    (hr : Checkpoint.Record.Readable
      ⟨createdAt, reached.clock, reached.model.snapshot, metadata⟩)
    (hclock : reached.clock.IsFinite) (hfinite : ∀ i, (reached.model.data i).allFinite = true)
    (hlegible : ∀ i, (reached.model.data i).legible = true)
    (fresh : Memories a.parts) (c : Clock Float) (wall' : Float) :
    Checkpoint.restore a.model d₂ file fresh c =
      (.ok metadata.sorted, reached.model, reached.clock) ∧
    (s + 1 < o.maxSteps →
      Run.plain a.model { o with maxSteps := o.maxSteps - (s + 1) } wall'
          ⟨reached.model, reached.clock, ()⟩ =
        (.ok (entries.drop (s + 1)), ⟨last.model, last.clock, ()⟩)) := by
  refine ⟨restore_of_save hnames hsave hfile hr hclock hfinite hlegible, fun hmax => ?_⟩
  have hle : done.length ≤ entries.length := hdone.symm ▸ hs
  rw [← hdone] at hmax ⊢
  exact Run.plain_rest model_onlyReads model_ignoresWall hh hevery hsim hrun course hle hmax wall'

/-! ## A clock seen one step late -/

/-- A delay. -/
def lateParts : List Part := [.unitDelay "late" 0]

/-- The memory of the delay. -/
def late (time : Float) (isFirst : Bool) : Memories lateParts :=
  .cons (⟨time, isFirst⟩ : Edges.Delayed Float) .nil

/-- The delay is fed with the time. -/
def lateClock : Assembly Float where
  parts := lateParts
  react := fun c ms =>
    let memory : Edges.Delayed Float := ms.get ⟨0, Nat.zero_lt_succ _⟩
    match (Edges.unitDelay (0 : Float)).step none memory c.time with
    | .ok (y, memory) => (.ok y, late memory.input memory.isFirst)
    | .error e => (.error e, ms)

/-- Three steps of a second. -/
def threeSteps : Options Float := ⟨1, 3, 10, 1⟩

/-- Every second step is saved with its number. -/
def saving : Hook Float (Memories lateParts) AutoSaver.Store :=
  AutoSaver.hook ⟨2, none⟩ lateClock.model "2027-01-15T08:00:00Z" fun step => .int step

/-- The delay at the start, with nothing saved. -/
def before : Scene Float (Memories lateParts) AutoSaver.Store :=
  ⟨late 0 true, ⟨.simulation, 0, none⟩, .ofDirectory ⟨"checkpoints", some []⟩⟩

/-- The delay after two steps, of which the second has been saved. -/
def saved : Scene Float (Memories lateParts) AutoSaver.Store :=
  (Run.withHook lateClock.model saving { threeSteps with maxSteps := 2 } 0 before).2

theorem saved_model : saved.model = late 1 false := by with_unfolding_all rfl

theorem saved_clock : saved.clock = ⟨.simulation, 2, none⟩ := by with_unfolding_all rfl

theorem readable_saved : Checkpoint.Record.Readable
    ⟨"2027-01-15T08:00:00Z", saved.clock, saved.model.snapshot, .int 1⟩ := by
  rw [saved_clock, saved_model]
  refine ⟨rfl, rfl, by decide, ?_⟩
  intro n hn
  obtain rfl : n = 1 := List.mem_singleton.1 hn
  decide

/-- The third step comes out the same from the file. -/
theorem resume_lateClock :
    Checkpoint.restore lateClock.model saved.store.directory "checkpoint_000000.json" (late 0 true)
        ⟨.simulation, 0, none⟩ =
      (.ok (.int 1), late 1 false, ⟨.simulation, 2, none⟩) ∧
    (Run.plain lateClock.model { threeSteps with maxSteps := 8 } 0
      ⟨late 1 false, ⟨.simulation, 2, none⟩, ()⟩).1 = .ok [(2, 1)] := by
  have saves : saving.OnlySaves := AutoSaver.hook_onlySaves _ _ _ _
  have hrun : Run.withHook lateClock.model saving threeSteps 0 before =
      (.ok [(0, 0), (1, 0), (2, 1)],
        (Run.withHook lateClock.model saving threeSteps 0 before).2) := by
    with_unfolding_all rfl
  have htwo : Run.withHook lateClock.model saving { threeSteps with maxSteps := 2 } 0 before =
      (.ok [(0, 0), (1, 0)], saved) := by
    with_unfolding_all rfl
  obtain ⟨done, course, hdone, -⟩ :=
    (Run.withHook_ok_iff model_onlyReads saves.timeless (by with_unfolding_all rfl) rfl).1 htwo
  have hlength : done.length = 2 := congrArg List.length (hdone.trans (Run.recorded_one done)).symm
  have hsave : Checkpoint.save lateClock.model ⟨"checkpoints", some []⟩ "2027-01-15T08:00:00Z"
      saved.model saved.clock (.int 1) = .ok ("checkpoint_000000.json", saved.store.directory) := by
    with_unfolding_all rfl
  have hclock : saved.clock.IsFinite := saved_clock ▸ rfl
  have hfinite : ∀ i, (saved.model.data i).allFinite = true := by
    rw [saved_model]
    decide
  have hlegible : ∀ i, (saved.model.data i).legible = true := by
    rw [saved_model]
    decide
  have resumed := resume_exact (by decide) rfl saves rfl hrun course (s := 1) hlength (by decide)
    hsave rfl readable_saved hclock hfinite hlegible (late 0 true) ⟨.simulation, 0, none⟩ 0
  rw [saved_model, saved_clock] at resumed
  refine ⟨resumed.1, ?_⟩
  exact congrArg Prod.fst (resumed.2 (by decide))

end Assembly

end ControlBlocks

import ControlBlocks.Proofs.Run.Course

/-!
# Runs that are taken up again

A run that stops after some turns, and another that goes on from there.

* `Hook.OnlySaves` — a hook that changes neither the model nor the clock;
* `Model.IgnoresWall` — in simulation the time of day does not matter;
* `Course.bare` — such hooks, and the numbers of the turns, make no difference to a course;
* `plain_rest` — the second run records what the first one had left to do.
-/

set_option autoImplicit false

namespace ControlBlocks

universe u

/-- In simulation the time of day does not matter to the model. -/
def Model.IgnoresWall {α ο : Type} {σ : Type u} (m : Model α σ ο) : Prop :=
  ∀ (wall wall' : α) (c : Clock α) (s : σ), c.mode = .simulation →
    m.step wall c s = m.step wall' c s

namespace Run

variable {α ο η : Type} {σ : Type u}

/-- The hook changes neither the model nor the clock. -/
def Hook.OnlySaves (hook : Hook α σ η) : Prop :=
  ∀ (n : Nat) (scene : Scene α σ η),
    (hook n scene).2.model = scene.model ∧ (hook n scene).2.clock = scene.clock

theorem Hook.OnlySaves.timeless {hook : Hook α σ η} (hh : hook.OnlySaves) : hook.Timeless := by
  intro n scene _
  rw [(hh n scene).2]
  exact ⟨rfl, rfl⟩

/-- The scene without what the hook keeps. -/
def Scene.bare (scene : Scene α σ η) : Scene α σ Unit := ⟨scene.model, scene.clock, ()⟩

/-- The hook that does nothing. -/
def quiet : Hook α σ Unit := fun _ scene => (.ok (), scene)

theorem quiet_timeless : (quiet : Hook α σ Unit).Timeless := fun _ _ _ => ⟨rfl, rfl⟩

theorem recorded_one {β : Type} (entries : List β) : recorded 1 entries = entries := by
  have all : entries.zipIdx.filter (fun e => e.2 % 1 = 0 ∨ e.2 + 1 = entries.length) =
      entries.zipIdx := List.filter_eq_self.2 fun e _ => by simp [Nat.mod_one]
  rw [recorded, all, List.zipIdx_map_fst]

section Rest

variable [Scalar α] {m : Model α σ ο} {hook : Hook α σ η} {o : Options α} {dt wall wall' : α}
  {n k : Nat} {scene reached last : Scene α σ η} {entries done : List (α × ο)}

/-- The course of a run is also one without a hook, whatever the numbers of its turns. -/
theorem Course.bare (hm : m.OnlyReads) (hw : m.IgnoresWall) (hh : hook.OnlySaves)
    (h : Course m hook dt wall n scene entries last) (hsim : scene.clock.mode = .simulation)
    (n' : Nat) (wall' : α) : Course m quiet dt wall' n' scene.bare entries last.bare := by
  induction h generalizing n' with
  | nil => exact .nil n' _
  | @cons n scene next last y model clock entries hstep hhook rest ih =>
    have saved := hh n { scene with model := model, clock := clock.moved dt }
    rw [hhook] at saved
    have hstep' : m.step wall' scene.bare.clock scene.bare.model = (.ok y, model, clock) :=
      (hw wall' wall _ _ hsim).trans hstep
    have hnext : quiet n' { scene.bare with model := model, clock := clock.moved dt } =
        (.ok (), next.bare) := by
      rw [quiet, Scene.bare, Scene.bare, saved.1, saved.2]
    exact .cons hstep' hnext (ih ((hh.timeless.still hm hsim hstep hhook).mode.trans hsim) _)

/-- Fewer steps are allowed, but at least one. -/
theorem Options.check_sub (ho : o.check = .ok ()) (hk : k < o.maxSteps) :
    Options.check { o with maxSteps := o.maxSteps - k } = .ok () := by
  have left : o.maxSteps - k ≠ 0 := Nat.sub_ne_zero_of_lt hk
  have before : o.maxSteps ≠ 0 := Nat.ne_zero_of_lt hk
  unfold check at ho ⊢
  simp only [before, left] at ho ⊢
  exact ho

/-- **The second run does what the first had left to do**, if it may make one step at least. -/
theorem plain_rest (hm : m.OnlyReads) (hw : m.IgnoresWall) (hh : hook.OnlySaves)
    (hevery : o.recordEvery = 1) (hsim : scene.clock.mode = .simulation)
    (hrun : withHook m hook o wall scene = (.ok entries, last))
    (course : Course m hook o.dt wall 0 scene done reached) (hdone : done.length ≤ entries.length)
    (hmax : done.length < o.maxSteps) (wall' : α) :
    plain m { o with maxSteps := o.maxSteps - done.length } wall' reached.bare =
      (.ok (entries.drop done.length), last.bare) := by
  have ho : o.check = .ok () := by
    rw [withHook] at hrun
    split at hrun
    · cases hrun
    · assumption
  have hmode := course.mode hm hh.timeless hsim
  obtain ⟨all, whole, hall, hdue, hle, hend⟩ := (withHook_ok_iff hm hh.timeless ho hsim).1 hrun
  rw [hevery, recorded_one] at hall
  subst hall
  -- the course of the first run is cut where the second one starts
  rw [← List.take_append_drop done.length entries, Course.append_iff] at whole
  obtain ⟨reached', first, rest⟩ := whole
  obtain ⟨-, rfl⟩ := course.unique first (List.length_take_of_le hdone).symm
  have left : (entries.drop done.length).length = entries.length - done.length := List.length_drop
  refine (withHook_ok_iff hm quiet_timeless (Options.check_sub ho hmax) hmode).2
    ⟨_, rest.bare hm hw hh hmode 0 wall', ?_, ?_, ?_, ?_⟩
  · rw [hevery, recorded_one]
  · intro e he
    exact hdue e (List.mem_of_mem_drop he)
  · rw [left]
    exact Nat.sub_le_sub_right hle _
  · refine hend.imp (fun h => ?_) id
    rw [left, h]

end Rest

end Run

end ControlBlocks

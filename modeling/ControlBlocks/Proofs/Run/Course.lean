import ControlBlocks.Network.Run

/-!
# The course of a run

A run in simulation, turn by turn: a step of the model, the clock moved on, the hook.

* `Course` — the turns from a scene to another, with the time and the output of each;
* `recorded` — what of it a record keeps; `Trace.finish_addAll` — the trace keeps that;
* `Course.steps_add` — a run does its turns one after another;
* `Course.unique` — a course is determined by its length;
* `exists_course` — there is a course of any length, unless a step or the hook fails.
-/

set_option autoImplicit false

namespace ControlBlocks

universe u

/-! ## Simulated time -/

namespace Clock

variable {α : Type}

/-- The clock moved on by a step. -/
def moved [Scalar α] (dt : α) (c : Clock α) : Clock α := { c with time := c.time + dt }

/-- Neither the time nor what moves it is another. -/
structure Still (c c' : Clock α) : Prop where
  mode : c'.mode = c.mode
  time : c'.time = c.time

theorem look_of_simulation {c : Clock α} (h : c.mode = .simulation) (wall : α) :
    c.look wall = c := by
  rw [look, h]

theorem advance_of_simulation [Scalar α] {c : Clock α} (h : c.mode = .simulation) (wall dt : α) :
    c.advance wall (some dt) = .ok (c.moved dt) := by
  obtain ⟨mode, time, step⟩ := c
  cases h
  rfl

end Clock

/-- The model reads simulated time and leaves it to others to move it. -/
def Model.OnlyReads {α ο : Type} {σ : Type u} (m : Model α σ ο) : Prop :=
  ∀ (wall : α) (c : Clock α) (s : σ), c.mode = .simulation → c.Still (m.step wall c s).2.2

namespace Run

variable {α ο η : Type} {σ : Type u}

/-- The hook does not move simulated time. -/
def Hook.Timeless (hook : Hook α σ η) : Prop :=
  ∀ (n : Nat) (scene : Scene α σ η),
    scene.clock.mode = .simulation → scene.clock.Still (hook n scene).2.clock

/-! ## Turns -/

section Turns

variable [Scalar α] (m : Model α σ ο) (hook : Hook α σ η) (dt wall : α)

/-- `Course m hook dt wall n scene entries last`: the turns numbered from `n` on lead from `scene`
to `last`, and `entries` are their times and outputs. -/
inductive Course : Nat → Scene α σ η → List (α × ο) → Scene α σ η → Prop where
  | nil (n : Nat) (scene : Scene α σ η) : Course n scene [] scene
  | cons {n : Nat} {scene next last : Scene α σ η} {y : ο} {model : σ} {clock : Clock α}
      {entries : List (α × ο)}
      (hstep : m.step wall scene.clock scene.model = (.ok y, model, clock))
      (hhook : hook n { scene with model := model, clock := clock.moved dt } = (.ok (), next))
      (rest : Course (n + 1) next entries last) :
      Course n scene ((scene.clock.time, y) :: entries) last

/-- The step of a turn fails. -/
def StepFails (scene : Scene α σ η) (e : Fault α) (after : Scene α σ η) : Prop :=
  m.step wall scene.clock scene.model = (.error e, after.model, after.clock) ∧
    after.store = scene.store

/-- The hook fails after the step of turn `n`. -/
def HookFails (n : Nat) (scene : Scene α σ η) (e : Failure α) (after : Scene α σ η) : Prop :=
  ∃ y model clock, m.step wall scene.clock scene.model = (.ok y, model, clock) ∧
    hook n { scene with model := model, clock := clock.moved dt } = (.error e, after)

end Turns

/-! ## Records -/

/-- The entries that a record keeps: every so many, and the last one in any case. -/
def recorded {β : Type} (every : Nat) (entries : List β) : List β :=
  (entries.zipIdx.filter fun e => e.2 % every = 0 ∨ e.2 + 1 = entries.length).map Prod.fst

namespace Trace

/-- The trace with the entries of the turns numbered from `step` on. -/
def addAll (every : Nat) : (step : Nat) → List (α × ο) → Trace α ο → Trace α ο
  | _, [], t => t
  | step, entry :: entries, t => addAll every (step + 1) entries (t.add every step entry)

theorem addAll_append (every step : Nat) (entries entries' : List (α × ο)) (t : Trace α ο) :
    addAll every step (entries ++ entries') t =
      addAll every (step + entries.length) entries' (addAll every step entries t) := by
  induction entries generalizing step t with
  | nil => rfl
  | cons entry entries ih =>
    rw [List.cons_append, addAll, addAll, ih, List.length_cons, Nat.add_right_comm, Nat.add_assoc]

/-- An entry is the last of the record of a trace that ends with it. -/
theorem finish_add (every step : Nat) (entry : α × ο) (t : Trace α ο) :
    (t.add every step entry).finish = t.recorded.reverse ++ [entry] := by
  unfold add
  split <;> simp [finish]

theorem recorded_add (every step : Nat) (entry : α × ο) (t : Trace α ο) :
    (t.add every step entry).recorded.reverse =
      t.recorded.reverse ++ if step % every = 0 then [entry] else [] := by
  unfold add
  split <;> simp

theorem recorded_addAll (every step : Nat) (entries : List (α × ο)) (t : Trace α ο) :
    (addAll every step entries t).recorded.reverse = t.recorded.reverse ++
      ((entries.zipIdx step).filter fun e => e.2 % every = 0).map Prod.fst := by
  induction entries generalizing step t with
  | nil => simp [addAll]
  | cons entry entries ih =>
    rw [addAll, ih, recorded_add, List.append_assoc, List.zipIdx_cons, List.filter_cons]
    split <;> simp_all

/-- **The trace of a run keeps what a record keeps.** -/
theorem finish_addAll (every : Nat) (entries : List (α × ο)) :
    (addAll every 0 entries empty).finish = Run.recorded every entries := by
  rcases entries.eq_nil_or_concat with rfl | ⟨entries, entry, rfl⟩
  · rfl
  · -- no entry but the last is kept for being the last
    have earlier : entries.zipIdx.filter
          (fun e => e.2 % every = 0 ∨ e.2 + 1 = (entries ++ [entry]).length) =
        entries.zipIdx.filter fun e => e.2 % every = 0 := by
      refine List.filter_congr fun e he => ?_
      have := List.snd_lt_of_mem_zipIdx he
      have notLast : e.2 + 1 ≠ (entries ++ [entry]).length := by
        rw [List.length_append, List.length_singleton]
        omega
      simp only [notLast, or_false]
    rw [List.concat_eq_append, addAll_append, addAll, addAll, finish_add, recorded_addAll,
      Run.recorded, List.zipIdx_append, List.filter_append, List.map_append, earlier]
    simp [empty]

end Trace

/-! ## The loop -/

section Loop

variable [Scalar α] {m : Model α σ ο} {hook : Hook α σ η} {o : Options α} {wall : α}
  {scene last : Scene α σ η} {entries : List (α × ο)} {k n : Nat}

/-- The end time has not been reached. -/
def Options.goesOn (o : Options α) (t : α) : Prop := t < o.tEnd - Scalar.timeTolerance

theorem steps_end (hsim : scene.clock.mode = .simulation)
    (hend : k = 0 ∨ ¬ o.goesOn scene.clock.time) (trace : Trace α ο) :
    steps m hook o wall k n trace scene = (.ok trace.finish, scene) := by
  cases k with
  | zero => rw [steps, Clock.look_of_simulation hsim]
  | succ k =>
    have hend := hend.resolve_left (Nat.succ_ne_zero k)
    rw [Options.goesOn] at hend
    rw [steps]
    simp only [Clock.look_of_simulation hsim]
    rw [if_neg hend]

theorem steps_stepFails (hsim : scene.clock.mode = .simulation)
    (hdue : o.goesOn scene.clock.time) (trace : Trace α ο) {e : Fault α} {after : Scene α σ η}
    (h : StepFails m wall scene e after) :
    steps m hook o wall (k + 1) n trace scene = (.error (.block e), after) := by
  obtain ⟨hstep, hstore⟩ := h
  rw [Options.goesOn] at hdue
  rw [steps]
  simp only [Clock.look_of_simulation hsim]
  rw [if_pos hdue, hstep]
  simp only [← hstore]

/-- A turn whose step succeeds: the loop goes on from what the hook makes of it. -/
theorem steps_succ (hm : m.OnlyReads) (hsim : scene.clock.mode = .simulation)
    (hdue : o.goesOn scene.clock.time) (trace : Trace α ο) {y : ο} {model : σ} {clock : Clock α}
    (hstep : m.step wall scene.clock scene.model = (.ok y, model, clock)) :
    steps m hook o wall (k + 1) n trace scene =
      match hook n { scene with model := model, clock := clock.moved o.dt } with
      | (.error e, after) => (.error e, after)
      | (.ok (), next) =>
        steps m hook o wall k (n + 1) (trace.add o.recordEvery n (scene.clock.time, y)) next := by
  have still := hm wall scene.clock scene.model hsim
  rw [hstep] at still
  rw [Options.goesOn] at hdue
  rw [steps]
  simp only [Clock.look_of_simulation hsim]
  rw [if_pos hdue, hstep]
  have moved := Clock.advance_of_simulation (still.mode.trans hsim) wall o.dt
  rcases hhook : hook n { scene with model := model, clock := clock.moved o.dt } with ⟨r, next⟩
  cases r <;> simp only [moved, hhook]

theorem steps_hookFails (hm : m.OnlyReads) (hsim : scene.clock.mode = .simulation)
    (hdue : o.goesOn scene.clock.time) (trace : Trace α ο) {e : Failure α} {after : Scene α σ η}
    (h : HookFails m hook o.dt wall n scene e after) :
    steps m hook o wall (k + 1) n trace scene = (.error e, after) := by
  obtain ⟨y, model, clock, hstep, hhook⟩ := h
  rw [steps_succ hm hsim hdue trace hstep, hhook]

/-- After a turn the clock is one step on. -/
theorem Hook.Timeless.still (hh : hook.Timeless) (hm : m.OnlyReads)
    (hsim : scene.clock.mode = .simulation) {y : ο} {model : σ} {clock : Clock α} {dt : α}
    (hstep : m.step wall scene.clock scene.model = (.ok y, model, clock))
    {r : Except (Failure α) Unit} {next : Scene α σ η}
    (hhook : hook n { scene with model := model, clock := clock.moved dt } = (r, next)) :
    (scene.clock.moved dt).Still next.clock := by
  have still := hm wall scene.clock scene.model hsim
  rw [hstep] at still
  have still' := hh n { scene with model := model, clock := clock.moved dt }
    (still.mode.trans hsim)
  rw [hhook] at still'
  refine ⟨still'.mode.trans still.mode, still'.time.trans ?_⟩
  show clock.time + dt = scene.clock.time + dt
  rw [still.time]

namespace Course

/-- Simulation goes on as such. -/
theorem mode (hm : m.OnlyReads) (hh : hook.Timeless) {dt : α}
    (h : Course m hook dt wall n scene entries last) (hsim : scene.clock.mode = .simulation) :
    last.clock.mode = .simulation := by
  induction h with
  | nil => exact hsim
  | cons hstep hhook _ ih => exact ih ((hh.still hm hsim hstep hhook).mode.trans hsim)

/-- **A run does its turns one after another**, as long as the end time has not been reached. -/
theorem steps_add (hm : m.OnlyReads) (hh : hook.Timeless)
    (h : Course m hook o.dt wall n scene entries last) (hsim : scene.clock.mode = .simulation)
    (hdue : ∀ e ∈ entries, o.goesOn e.1) (k : Nat) (trace : Trace α ο) :
    steps m hook o wall (entries.length + k) n trace scene =
      steps m hook o wall k (n + entries.length) (Trace.addAll o.recordEvery n entries trace)
        last := by
  induction h generalizing trace with
  | nil => rw [List.length_nil, Nat.zero_add, Nat.add_zero, Trace.addAll]
  | cons hstep hhook _ ih =>
    rw [List.forall_mem_cons] at hdue
    rw [List.length_cons, Nat.add_right_comm, steps_succ hm hsim hdue.1 trace hstep, hhook,
      Trace.addAll]
    simp only
    rw [ih ((hh.still hm hsim hstep hhook).mode.trans hsim) hdue.2, Nat.add_right_comm,
      Nat.add_assoc]

/-- A course is determined by its length. -/
theorem unique {dt : α} {entries' : List (α × ο)} {last' : Scene α σ η}
    (h : Course m hook dt wall n scene entries last)
    (h' : Course m hook dt wall n scene entries' last')
    (hlength : entries.length = entries'.length) : entries = entries' ∧ last = last' := by
  induction h generalizing entries' with
  | nil =>
    cases h' with
    | nil => exact ⟨rfl, rfl⟩
    | cons => cases hlength
  | cons hstep hhook _ ih =>
    cases h' with
    | nil => cases hlength
    | cons hstep' hhook' rest' =>
      rw [hstep] at hstep'
      cases hstep'
      rw [hhook] at hhook'
      cases hhook'
      obtain ⟨rfl, rfl⟩ := ih rest' (Nat.succ.inj hlength)
      exact ⟨rfl, rfl⟩

/-- A course in two parts. -/
theorem append_iff {dt : α} {entries' : List (α × ο)} :
    Course m hook dt wall n scene (entries ++ entries') last ↔
      ∃ reached, Course m hook dt wall n scene entries reached ∧
        Course m hook dt wall (n + entries.length) reached entries' last := by
  induction entries generalizing n scene with
  | nil =>
    constructor
    · intro h
      exact ⟨scene, .nil n scene, h⟩
    · rintro ⟨reached, h, h'⟩
      cases h
      exact h'
  | cons entry entries ih =>
    have place : n + 1 + entries.length = n + (entry :: entries).length := by
      rw [List.length_cons, Nat.add_right_comm, Nat.add_assoc]
    constructor
    · intro h
      cases h with
      | cons hstep hhook rest =>
        obtain ⟨reached, first, second⟩ := ih.1 rest
        exact ⟨reached, .cons hstep hhook first, place ▸ second⟩
    · rintro ⟨reached, h, h'⟩
      cases h with
      | cons hstep hhook rest => exact .cons hstep hhook (ih.2 ⟨reached, rest, place.symm ▸ h'⟩)

end Course

/-- There is a course of any length, unless a step or the hook fails before. -/
theorem exists_course (m : Model α σ ο) (hook : Hook α σ η) (dt wall : α) (N n : Nat)
    (scene : Scene α σ η) :
    (∃ entries last, Course m hook dt wall n scene entries last ∧ entries.length = N) ∨
    ∃ entries reached, Course m hook dt wall n scene entries reached ∧ entries.length < N ∧
      ((∃ e after, StepFails m wall reached e after) ∨
        ∃ e after, HookFails m hook dt wall (n + entries.length) reached e after) := by
  induction N generalizing n scene with
  | zero => exact .inl ⟨[], scene, .nil n scene, rfl⟩
  | succ N ih =>
    rcases hstep : m.step wall scene.clock scene.model with ⟨r, model, clock⟩
    cases r with
    | error e =>
      exact .inr ⟨[], scene, .nil n scene, Nat.zero_lt_succ N,
        .inl ⟨e, { scene with model := model, clock := clock }, hstep, rfl⟩⟩
    | ok y =>
      rcases hhook : hook n { scene with model := model, clock := clock.moved dt } with ⟨r, next⟩
      cases r with
      | error e =>
        exact .inr ⟨[], scene, .nil n scene, Nat.zero_lt_succ N,
          .inr ⟨e, next, y, model, clock, hstep, hhook⟩⟩
      | ok _ =>
        rcases ih (n + 1) next with
          ⟨entries, last, h, hN⟩ | ⟨entries, reached, h, hN, hfail⟩
        · exact .inl ⟨_, last, .cons hstep hhook h, congrArg Nat.succ hN⟩
        · refine .inr ⟨_, reached, .cons hstep hhook h, Nat.succ_lt_succ hN, ?_⟩
          rw [List.length_cons, ← Nat.add_assoc, Nat.add_right_comm]
          exact hfail

/-- A run that succeeds has gone through a course. -/
theorem exists_course_of_steps (hm : m.OnlyReads) (hh : hook.Timeless)
    (hsim : scene.clock.mode = .simulation) {trace : Trace α ο} {record : List (α × ο)}
    (h : steps m hook o wall k n trace scene = (.ok record, last)) :
    ∃ entries, Course m hook o.dt wall n scene entries last ∧
      record = (Trace.addAll o.recordEvery n entries trace).finish ∧
      (∀ e ∈ entries, o.goesOn e.1) ∧ entries.length ≤ k ∧
      (entries.length = k ∨ ¬ o.goesOn last.clock.time) := by
  -- on the steps that are left; each turn that succeeds puts its entry before those of the rest
  induction k generalizing n scene trace with
  | zero =>
    rw [steps_end hsim (.inl rfl)] at h
    cases h
    exact ⟨[], .nil n _, rfl, List.forall_mem_nil _, Nat.le_refl 0, .inl rfl⟩
  | succ k ih =>
    by_cases hdue : o.goesOn scene.clock.time
    · rcases hstep : m.step wall scene.clock scene.model with ⟨r, model, clock⟩
      cases r with
      | error e =>
        have fails : StepFails m wall scene e { scene with model := model, clock := clock } :=
          ⟨hstep, rfl⟩
        rw [steps_stepFails hsim hdue trace fails] at h
        cases h
      | ok y =>
        rw [steps_succ hm hsim hdue trace hstep] at h
        rcases hhook : hook n { scene with model := model, clock := clock.moved o.dt } with
          ⟨r, next⟩
        rw [hhook] at h
        cases r with
        | error e => cases h
        | ok _ =>
          obtain ⟨entries, course, hrecord, hentries, hk, hend⟩ :=
            ih ((hh.still hm hsim hstep hhook).mode.trans hsim) h
          refine ⟨_, .cons hstep hhook course, hrecord, List.forall_mem_cons.2 ⟨hdue, hentries⟩,
            Nat.succ_le_succ hk, ?_⟩
          exact hend.imp_left (congrArg Nat.succ)
    · rw [steps_end hsim (.inr hdue)] at h
      cases h
      exact ⟨[], .nil n _, rfl, List.forall_mem_nil _, Nat.zero_le _, .inr hdue⟩

/-- What is left of a run after a course. -/
theorem Course.withHook_eq (hm : m.OnlyReads) (hh : hook.Timeless) (ho : o.check = .ok ())
    (h : Course m hook o.dt wall 0 scene entries last) (hsim : scene.clock.mode = .simulation)
    (hdue : ∀ e ∈ entries, o.goesOn e.1) (hk : entries.length + k = o.maxSteps) :
    withHook m hook o wall scene = steps m hook o wall k entries.length
      (Trace.addAll o.recordEvery 0 entries .empty) last := by
  rw [withHook, ho]
  simp only
  rw [← hk, h.steps_add hm hh hsim hdue, Nat.zero_add]

/-- **What a successful run comes to**: the course that ends with the time or after as many steps
as are allowed, and its record. -/
theorem withHook_ok_iff (hm : m.OnlyReads) (hh : hook.Timeless) (ho : o.check = .ok ())
    (hsim : scene.clock.mode = .simulation) {record : List (α × ο)} :
    withHook m hook o wall scene = (.ok record, last) ↔
      ∃ entries, Course m hook o.dt wall 0 scene entries last ∧
        record = recorded o.recordEvery entries ∧
        (∀ e ∈ entries, o.goesOn e.1) ∧ entries.length ≤ o.maxSteps ∧
        (entries.length = o.maxSteps ∨ ¬ o.goesOn last.clock.time) := by
  simp only [← Trace.finish_addAll]
  constructor
  · intro h
    rw [withHook, ho] at h
    exact exists_course_of_steps hm hh hsim h
  · rintro ⟨entries, course, rfl, hdue, hmax, hend⟩
    obtain ⟨k, hk⟩ := Nat.le.dest hmax
    rw [course.withHook_eq hm hh ho hsim hdue hk, steps_end (course.mode hm hh hsim)]
    exact hend.imp_left fun h => Nat.add_left_cancel (hk.trans h.symm)

end Loop

end Run

end ControlBlocks

import ControlBlocks.Proofs.Run.Course
import Mathlib.Algebra.Order.Archimedean.Basic
import Mathlib.Tactic.Linarith

/-!
# Runs in exact time

What a run in simulation does when times are exact rationals.

* `Outcome` — what a run of so many turns can come to, with the times of all its turns;
* `Course.times` — turn `i` of a course is at `t₀ + i * dt`;
* `withHook_reference` — the number of turns, and that every run comes to its outcome.
-/

set_option autoImplicit false

namespace ControlBlocks.Run

universe u

variable {ο η : Type} {σ : Type u} {m : Model Rat σ ο} {hook : Hook Rat σ η} {o : Options Rat}
  {dt wall : Rat} {n N : Nat} {scene last : Scene Rat σ η} {entries : List (Rat × ο)}

/-- What a run of `N` turns can come to. -/
inductive Outcome (m : Model Rat σ ο) (hook : Hook Rat σ η) (o : Options Rat) (wall : Rat) (N : Nat)
    (scene : Scene Rat σ η) :
    Except (Failure Rat) (List (Rat × ο)) × Scene Rat σ η → Prop where
  /-- No step and no hook fails. -/
  | done {entries : List (Rat × ο)} {last : Scene Rat σ η}
      (course : Course m hook o.dt wall 0 scene entries last)
      (times : entries.map Prod.fst =
        (List.range N).map fun i : Nat => scene.clock.time + i * o.dt)
      (clock : last.clock.time = scene.clock.time + N * o.dt) :
      Outcome m hook o wall N scene (.ok (recorded o.recordEvery entries), last)
  /-- Step `j` fails. -/
  | stepFails {j : Nat} {entries : List (Rat × ο)} {reached after : Scene Rat σ η} {e : Fault Rat}
      (course : Course m hook o.dt wall 0 scene entries reached) (before : j < N)
      (times : entries.map Prod.fst =
        (List.range j).map fun i : Nat => scene.clock.time + i * o.dt)
      (fails : StepFails m wall reached e after)
      (clock : after.clock.time = scene.clock.time + j * o.dt) :
      Outcome m hook o wall N scene (.error (.block e), after)
  /-- The hook fails after step `j`. -/
  | hookFails {j : Nat} {entries : List (Rat × ο)} {reached after : Scene Rat σ η}
      {e : Failure Rat} (course : Course m hook o.dt wall 0 scene entries reached)
      (before : j < N)
      (times : entries.map Prod.fst =
        (List.range j).map fun i : Nat => scene.clock.time + i * o.dt)
      (fails : HookFails m hook o.dt wall j reached e after)
      (clock : after.clock.time = scene.clock.time + (j + 1) * o.dt) :
      Outcome m hook o wall N scene (.error e, after)

/-- Turn `i` of a course is at `t₀ + i * dt`. -/
theorem Course.times (hm : m.OnlyReads) (hh : hook.Timeless)
    (h : Course m hook dt wall n scene entries last) (hsim : scene.clock.mode = .simulation) :
    (entries.map Prod.fst =
        (List.range entries.length).map fun i : Nat => scene.clock.time + i * dt) ∧
      last.clock.time = scene.clock.time + entries.length * dt := by
  induction h with
  | nil => simp
  | cons hstep hhook _ ih =>
    have still := hh.still hm hsim hstep hhook
    obtain ⟨times, clock⟩ := ih (still.mode.trans hsim)
    have next : _ = _ + dt := still.time
    rw [List.map_cons, times, clock, List.length_cons, List.range_succ_eq_map, List.map_cons,
      List.map_map, next]
    refine ⟨?_, ?_⟩
    · rw [Nat.cast_zero, zero_mul, add_zero]
      refine congrArg _ (List.map_congr_left fun i _ => ?_)
      rw [Function.comp_apply, Nat.cast_succ]
      ring
    · rw [Nat.cast_succ]
      ring

/-- In exact time the end is reached. -/
theorem exists_isLeast_turns (hdt : 0 < dt) (tEnd t₀ : Rat) :
    ∃ n, IsLeast {n : ℕ | tEnd ≤ t₀ + n * dt} n := by
  have some_late : ∃ n : ℕ, tEnd ≤ t₀ + n * dt := by
    obtain ⟨n, hn⟩ := exists_nat_ge ((tEnd - t₀) / dt)
    refine ⟨n, ?_⟩
    have := (div_le_iff₀ hdt).1 hn
    linarith
  exact ⟨Nat.find some_late, Nat.find_spec some_late, fun n hn => Nat.find_min' some_late hn⟩

/-- The options make sense only with a step above zero. -/
theorem Options.dt_pos (ho : o.check = .ok ()) : 0 < o.dt := by
  unfold check at ho
  split at ho
  · cases ho
  · next h => exact (not_not.1 h).2

namespace Outcome

/-- A run has at most one outcome: its own. -/
theorem eq_withHook (hm : m.OnlyReads) (hh : hook.Timeless) (ho : o.check = .ok ())
    (hsim : scene.clock.mode = .simulation) (hmax : N ≤ o.maxSteps)
    (hdue : ∀ i : ℕ, i < N → o.goesOn (scene.clock.time + i * o.dt))
    (hend : N = o.maxSteps ∨ ¬ o.goesOn (scene.clock.time + N * o.dt))
    {r : Except (Failure Rat) (List (Rat × ο)) × Scene Rat σ η}
    (h : Outcome m hook o wall N scene r) : withHook m hook o wall scene = r := by
  -- within `N` turns the end time is not reached, so the loop goes through the whole course
  have due {j : ℕ} {entries : List (Rat × ο)} (hj : j ≤ N) (times : entries.map Prod.fst =
      (List.range j).map fun i : Nat => scene.clock.time + i * o.dt) :
      entries.length = j ∧ ∀ e ∈ entries, o.goesOn e.1 := by
    refine ⟨by simpa using congrArg List.length times, fun e he => ?_⟩
    have hmem := List.mem_map_of_mem (f := Prod.fst) he
    rw [times, List.mem_map] at hmem
    obtain ⟨i, hi, heq⟩ := hmem
    rw [← heq]
    exact hdue i (Nat.lt_of_lt_of_le (List.mem_range.1 hi) hj)
  cases h with
  | done course times clock =>
    obtain ⟨hlength, hentries⟩ := due (Nat.le_refl N) times
    rw [withHook_ok_iff hm hh ho hsim]
    exact ⟨_, course, rfl, hentries, hlength.symm ▸ hmax, hlength.symm ▸ clock.symm ▸ hend⟩
  | stepFails course before times fails clock =>
    obtain ⟨rfl, hentries⟩ := due (Nat.le_of_lt before) times
    obtain ⟨k, hk⟩ := Nat.exists_eq_add_of_lt (Nat.lt_of_lt_of_le before hmax)
    have now := hdue _ before
    rw [← (course.times hm hh hsim).2] at now
    rw [course.withHook_eq (k := k + 1) hm hh ho hsim hentries hk.symm,
      steps_stepFails (course.mode hm hh hsim) now _ fails]
  | hookFails course before times fails clock =>
    obtain ⟨rfl, hentries⟩ := due (Nat.le_of_lt before) times
    obtain ⟨k, hk⟩ := Nat.exists_eq_add_of_lt (Nat.lt_of_lt_of_le before hmax)
    have now := hdue _ before
    rw [← (course.times hm hh hsim).2] at now
    rw [course.withHook_eq (k := k + 1) hm hh ho hsim hentries hk.symm,
      steps_hookFails hm (course.mode hm hh hsim) now _ fails]

/-- A run of any number of turns has an outcome. -/
theorem exists_of_turns (hm : m.OnlyReads) (hh : hook.Timeless)
    (hsim : scene.clock.mode = .simulation) (o : Options Rat) (wall : Rat) (N : Nat) :
    ∃ r, Outcome m hook o wall N scene r := by
  rcases exists_course m hook o.dt wall N 0 scene with
    ⟨entries, last, course, rfl⟩ |
      ⟨entries, reached, course, hlt, ⟨e, after, fails⟩ | ⟨e, after, fails⟩⟩
  · obtain ⟨times, clock⟩ := course.times hm hh hsim
    exact ⟨_, .done course times clock⟩
  · obtain ⟨times, clock⟩ := course.times hm hh hsim
    have still := hm wall reached.clock reached.model (course.mode hm hh hsim)
    rw [fails.1] at still
    exact ⟨_, .stepFails course hlt times fails (still.time.trans clock)⟩
  · obtain ⟨times, clock⟩ := course.times hm hh hsim
    rw [Nat.zero_add] at fails
    refine ⟨_, .hookFails course hlt times fails ?_⟩
    obtain ⟨y, model, now, hstep, hhook⟩ := fails
    have moved := (hh.still hm (course.mode hm hh hsim) hstep hhook).time
    rw [moved, add_mul, one_mul, ← add_assoc, ← clock]
    rfl

end Outcome

/-- **What a run in exact time comes to.**  Options that make no sense change nothing.  With others
the number `N` of turns is the least that reaches the end time but for the tolerance, and no more
than are allowed.  The run comes to its outcome: turn `i` is at `t₀ + i * dt`, each step is followed
by the hook with its number, and the record keeps every so many of the entries and the last one;
a failure of a step or of the hook ends the run where it is. -/
theorem withHook_reference (hm : m.OnlyReads) (hh : hook.Timeless) (o : Options Rat) (wall : Rat)
    (scene : Scene Rat σ η) (hsim : scene.clock.mode = .simulation) :
    (∀ e, o.check = .error e → withHook m hook o wall scene = (.error e, scene)) ∧
    (o.check = .ok () → ∃ n N : ℕ,
      IsLeast {n : ℕ | o.tEnd - 1e-9 ≤ scene.clock.time + n * o.dt} n ∧ N = min n o.maxSteps ∧
      ∀ r, withHook m hook o wall scene = r ↔ Outcome m hook o wall N scene r) := by
  refine ⟨fun e he => by rw [withHook, he], fun ho => ?_⟩
  obtain ⟨n, hn⟩ := exists_isLeast_turns (Options.dt_pos ho) (o.tEnd - 1e-9) scene.clock.time
  refine ⟨n, _, hn, rfl, fun r => ?_⟩
  have hdue : ∀ i : ℕ, i < min n o.maxSteps → o.goesOn (scene.clock.time + i * o.dt) := by
    intro i hi
    refine not_le.1 fun hlate => ?_
    exact absurd (hn.2 hlate) (Nat.not_le.2 (Nat.lt_of_lt_of_le hi (Nat.min_le_left _ _)))
  have hend : min n o.maxSteps = o.maxSteps ∨
      ¬ o.goesOn (scene.clock.time + (min n o.maxSteps : ℕ) * o.dt) := by
    rcases Nat.le_total o.maxSteps n with h | h
    · exact .inl (Nat.min_eq_right h)
    · rw [Nat.min_eq_left h]
      exact .inr (not_lt.2 hn.1)
  -- there is an outcome, and any outcome is that of the run: the two are the same
  have own : ∀ r, Outcome m hook o wall (min n o.maxSteps) scene r →
      withHook m hook o wall scene = r := by
    intro r hr
    exact hr.eq_withHook hm hh ho hsim (Nat.min_le_right _ _) hdue hend
  constructor
  · rintro rfl
    obtain ⟨r, hr⟩ := Outcome.exists_of_turns hm hh hsim o wall (min n o.maxSteps)
    rw [own r hr]
    exact hr
  · exact own r

/-- A model that shows the time. -/
def shown : Model Rat Unit Rat where
  step := fun _ c s => (.ok c.time, s, c)
  snapshot := fun _ => .empty
  restore := fun _ s => (.ok (), s)

/-- A hook that keeps the numbers with which it is called, the last one first. -/
def numbering : Hook Rat Unit (List Nat) :=
  fun n scene => (.ok (), { scene with store := n :: scene.store })

/-- Quarters of a second up to the end, one of four recorded. -/
def quarters : Options Rat := ⟨1 / 4, 5 / 2, 100, 4⟩

theorem least_quarters : IsLeast {n : ℕ | quarters.tEnd - 1e-9 ≤ 0 + n * quarters.dt} 10 := by
  refine ⟨?_, ?_⟩
  · show (5 / 2 - 1e-9 : Rat) ≤ 0 + (10 : ℕ) * (1 / 4)
    norm_num
  · intro n hn
    have hn : (5 / 2 - 1e-9 : Rat) ≤ 0 + n * (1 / 4) := hn
    have : (9 : Rat) < n := by linarith
    exact_mod_cast this

/-- Ten turns, of which the last is recorded although it is none of the fourth ones. -/
theorem outcome_quarters :
    Outcome shown numbering quarters 0 10 ⟨(), ⟨.simulation, 0, none⟩, []⟩
      (.ok [(0, 0), (1, 1), (2, 2), (9 / 4, 9 / 4)],
        ⟨(), ⟨.simulation, 5 / 2, none⟩, [9, 8, 7, 6, 5, 4, 3, 2, 1, 0]⟩) := by
  have reads : shown.OnlyReads := fun _ _ _ _ => ⟨rfl, rfl⟩
  have timeless : numbering.Timeless := fun _ _ _ => ⟨rfl, rfl⟩
  obtain ⟨n, N, hn, hN, outcome⟩ := (withHook_reference reads timeless quarters 0
    ⟨(), ⟨.simulation, 0, none⟩, []⟩ rfl).2 (by with_unfolding_all rfl)
  obtain rfl : n = 10 := hn.unique least_quarters
  obtain rfl : N = 10 := hN
  refine (outcome _).1 ?_
  with_unfolding_all rfl

end ControlBlocks.Run

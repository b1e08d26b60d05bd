import ControlBlocks.Proofs.InPlace.Library

/-!
# Evaluations that fail

What an evaluation that fails leaves behind, and why it failed.

* `Block.Fails` — the ways in which an evaluation can fail;
* `Block.InPlace.fails` — there are no others in the library;
* `Design.failures_leave_no_trace` — after a failure the memory is the one from before.
-/

set_option autoImplicit false

namespace ControlBlocks

variable {α : Type} [Elementary α]

/-- The ways in which an evaluation can fail: at a time, with a memory and an input. -/
inductive Block.Fails : {ι σ ο : Type} → Block α ι σ ο → Option α → σ → ι → Fault α → Prop
  /-- A block without memory refuses its input or the time. -/
  | refused {ι ο : Type} {b : Block α ι Unit ο} {time : Option α} {u : ι} {e : Fault α} :
    Fails b time () u e
  /-- A block that needs the time is detached. -/
  | detached {ι σ ο : Type} {b : Block α ι σ ο} {s : σ} {u : ι} (h : b.clockUse ≠ .never) :
    Fails b none s u (.missingClock b.name)
  /-- A counter has come to the end of its range. -/
  | overflow {start : Int} {time : Option α} {s : Counter.State} {d : Counter.Input}
    (hreset : d.reset = false) (hrise : rising s.trigger d.trigger = true)
    (hrange : ¬ InInt64 (s.count + 1)) :
    Fails (Counter.block start) time s d
      (.domain "OnCounter" "count overflow" (s.count : α))

section Fails

variable {ι σ ο : Type} {time : Option α} {s : σ} {u : ι} {e : Fault α}

theorem Block.fails_timed {name : String} {start : σ} {f : α → σ → ι → ο × σ}
    (h : (Block.timed name start f).step time s u = .error e) :
    (Block.timed name start f).Fails time s u e := by
  cases time with
  | none =>
    cases h
    exact .detached (by simp [timed])
  | some t => cases h

theorem Counter.fails {start : Int} {s : State} {d : Input}
    (h : (block start).step time s d = .error e) : (block start).Fails time s d e := by
  simp only [block, Block.sequential, step] at h
  split at h
  · cases h
  · rename_i hreset
    split at h
    · rename_i hrise
      split at h
      · cases h
      · rename_i hrange
        cases h
        exact .overflow (Bool.eq_false_iff.2 hreset) hrise hrange
    · cases h

/-- A block of the library fails in no other way. -/
theorem Block.InPlace.fails {b : Block α ι σ ο} {p : Procedure α ι σ ο} (h : b.InPlace p)
    (hstep : b.step time s u = .error e) : b.Fails time s u e := by
  cases h with
  | memoryless => exact .refused
  | counter start => exact Counter.fails hstep
  | stage p =>
    cases time with
    | none =>
      cases hstep
      exact .detached (b := Stage.ofSettings p) (by simp [Stage.ofSettings])
    | some t => cases hstep
  | detector | unitDelay | latch | toggle | relay | triggeredMax | triggeredMean
    | triggeredSampler => cases hstep
  | _ => exact Block.fails_timed hstep

end Fails

namespace Design

open Component (Running)

/-- **A failed evaluation leaves no trace.**  The procedure of a block of the library works on the
memory in place, and where its evaluation fails, the memory is the one from before.  A block with
memory fails only if it lacks its clock, or is a counter at the end of its range. -/
theorem failures_leave_no_trace {d : Design α} {c : Component α} (h : d.component = .ok c) :
    ∃ p, c.block.InPlace p ∧
      ∀ (attached : Bool) (s : c.State) (wall : α) (clock : Clock α) (u : c.Input),
        Running.evaluate ⟨c, attached, s⟩ wall clock u =
            ((c.perform p attached wall clock s u).1,
              c.resume attached (c.perform p attached wall clock s u).2) ∧
          ∀ e s' clock', c.perform p attached wall clock s u = (.error e, s', clock') →
            s' = s ∧
              c.block.Fails (Block.seen attached (c.block.clockUse ≠ .never) wall clock).1 s u
                e := by
  obtain ⟨p, hp⟩ := exists_inPlace h
  refine ⟨p, hp, fun attached s wall clock u => ⟨?_, fun e s' clock' hfail => ?_⟩⟩
  · exact c.evaluate_eq_perform attached hp.carries wall clock s u
  · obtain ⟨hs, hstep⟩ := c.perform_eq_error attached hp.carries hfail
    exact ⟨hs, hp.fails hstep⟩

/-- A counter at the end of its range refuses to count on, and does not remember the trigger. -/
theorem failures_leave_no_trace_counter :
    ∃ p, (Counter.block (α := Float) 9223372036854775807).InPlace p ∧
      Component.perform ⟨Counter.block 9223372036854775807⟩ p false 0 ⟨.simulation, 0, none⟩
          ⟨9223372036854775807, false⟩ ⟨true, false⟩ =
        (.error (.domain "OnCounter" "count overflow" ((9223372036854775807 : Int) : Float)),
          ⟨9223372036854775807, false⟩, ⟨.simulation, 0, none⟩) := by
  obtain ⟨p, hp, hrun⟩ :=
    failures_leave_no_trace (d := .counter 9223372036854775807) (α := Float) rfl
  have evaluated := (hrun false (⟨9223372036854775807, false⟩ : Counter.State) 0
    ⟨.simulation, 0, none⟩ (⟨true, false⟩ : Counter.Input)).1
  refine ⟨p, hp, ?_⟩
  generalize Component.perform _ p false 0 _ _ _ = result at evaluated ⊢
  obtain ⟨y, s, clock⟩ := result
  have failed : Running.evaluate ⟨⟨Counter.block 9223372036854775807⟩, false,
      (⟨9223372036854775807, false⟩ : Counter.State)⟩ 0 ⟨.simulation, 0, none⟩
        (⟨true, false⟩ : Counter.Input) =
      (.error (.domain "OnCounter" "count overflow" ((9223372036854775807 : Int) : Float)),
        ⟨⟨Counter.block 9223372036854775807⟩, false,
          (⟨9223372036854775807, false⟩ : Counter.State)⟩, ⟨.simulation, 0, none⟩) := rfl
  cases failed.symm.trans evaluated
  rfl

end Design

end ControlBlocks

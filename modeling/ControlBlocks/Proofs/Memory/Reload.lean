import ControlBlocks.Proofs.Json.Documents
import ControlBlocks.Proofs.Memory.Blocks

/-!
# Memories read back from their text

What becomes of a memory that goes through a text and back.

* `Component.reload?` — the memory that is read from the text of a memory;
* `Component.reload?_eq` — the text itself loses nothing;
* `Design.reload_exact` — where a memory comes back unchanged or not at all: everywhere but where
  all that is lost are infinite values of fields that may be empty;
* `Design.exists_reload_changed` — a block that comes back with another memory.
-/

set_option autoImplicit false

namespace ControlBlocks

namespace Component

variable (c : Component Float)

/-- A memory of the component as data, before anything is lost. -/
def write (s : c.State) : Datum Float := c.writeState.toDatum s

/-- The memory that is read from the text of a memory; `none` where reading fails. -/
def reload? (s : c.State) : Option c.State :=
  (Json.parse? (Json.compact (c.keep s))).bind c.regain?

/-- The memories that a component comes to, on any clocks and with any inputs. -/
inductive Reachable : c.State → Prop where
  | start (attached : Bool) (wall : Float) (clock : Clock Float) :
      Reachable (c.block.startOn attached wall clock).1
  | step {s s' : c.State} {y : c.Output} (attached : Bool) (wall : Float) (clock : Clock Float)
      (u : c.Input) (hs : Reachable s)
      (h : (c.block.evalOn attached wall clock s u).1 = .ok (y, s')) : Reachable s'

end Component

section Lawful

variable {c : Component Float}

/-- What is kept has only finite values. -/
theorem Component.allFinite_keep (s : c.State) : (c.keep s).allFinite = true :=
  Datum.partwise_allFinite.sorted (Datum.allFinite_stored _)

theorem Component.stored_keep (s : c.State) : (c.keep s).stored = c.keep s :=
  Datum.stored_eq_self (allFinite_keep s)

theorem Component.sorted_keep (s : c.State) : (c.keep s).sorted = c.keep s :=
  Datum.sorted_sorted _

/-- A property of integers holds in what is kept when it holds in the memory. -/
theorem Component.ints_keep {p : Int → Prop} {s : c.State} (h : ∀ n ∈ (c.write s).ints, p n) :
    ∀ n ∈ (c.keep s).ints, p n :=
  (Datum.partwise_ints p).sorted
    ((Datum.partwise_ints p).stored (by intro n hn; cases hn) h)

theorem Component.Lawful.nesting_keep (hc : c.Lawful) (s : c.State) : (c.keep s).nesting ≤ 3 :=
  Nat.le_trans (Datum.nesting_sorted_le _)
    (Nat.le_trans (Datum.nesting_stored_le _) (@Kept.nesting c.State c.writeState c.readState hc s))

/-- Different memories are written differently. -/
theorem Component.Lawful.write_injective (hc : c.Lawful) {s s' : c.State}
    (h : c.write s = c.write s') : s = s' :=
  @Written.injective c.State c.writeState
    (@Kept.toReread c.State c.writeState c.readState hc).toWritten s s' h

/-- What is kept gives back what was stored, where that is legible, and nothing else. -/
theorem Component.Lawful.returns (hc : c.Lawful) (s : c.State) :
    @Returns c.State c.writeState (c.write s).legible (c.write s).stored (c.regain? (c.keep s)) :=
  @Reread.returns c.State c.writeState c.readState
    (@Kept.toReread c.State c.writeState c.readState hc) s

/-- What is kept gives back some memory exactly where the memory is legible. -/
theorem Component.Lawful.isSome_regain?_keep (hc : c.Lawful) (s : c.State) :
    (c.regain? (c.keep s)).isSome = (c.write s).legible :=
  @Returns.isSome c.State c.writeState _ _ _ (hc.returns s)

/-- A memory is kept without loss exactly when its values are finite and legible. -/
theorem Component.Lawful.regain?_keep_eq_self_iff (hc : c.Lawful) (s : c.State) :
    c.regain? (c.keep s) = some s ↔
      (c.write s).allFinite = true ∧ (c.write s).legible = true := by
  have law := hc.returns s
  generalize c.regain? (c.keep s) = reading at law
  cases law with
  | value hlegible hs =>
    rename_i s'
    rw [Option.some_inj, ← Datum.stored_eq_self_iff, ← hs]
    constructor
    · rintro rfl
      exact ⟨rfl, hlegible⟩
    · rintro ⟨heq, -⟩
      exact hc.write_injective heq
  | nothing hlegible =>
    rw [hlegible]
    simp

/-- **Nothing is lost in the text**: a memory is read from it as from the data themselves. -/
theorem Component.Lawful.reload?_eq (hc : c.Lawful) (s : c.State)
    (hints : ∀ n ∈ (c.write s).ints, Json.Has64Bits n) :
    c.reload? s = c.regain? (c.keep s) := by
  have depth : (c.keep s).nesting ≤ Json.maxDepth :=
    Nat.le_trans (hc.nesting_keep s) (by decide)
  unfold Component.reload?
  rw [Json.parse?_compact _ (Component.ints_keep hints) depth, Component.stored_keep,
    Option.bind_some]

end Lawful

/-! ## Memories that change -/

namespace Design

/-- **Where a memory comes back as it was or not at all.**  It does so exactly when all its values
are finite, or when some number of it is not legible.  What comes back is otherwise the memory
without its infinite values. -/
theorem reload_exact {d : Design Float} {c : Component Float} (h : d.component = .ok c)
    (s : c.State) (hints : ∀ n ∈ (c.write s).ints, Json.Has64Bits n) :
    ((c.reload? s = none ∨ c.reload? s = some s) ↔
      ((c.write s).allFinite = true ∨ (c.write s).legible = false)) ∧
    ∀ s', c.reload? s = some s' → c.write s' = (c.write s).stored := by
  have hc := lawful h
  have law := hc.returns s
  have self := hc.regain?_keep_eq_self_iff s
  rw [hc.reload?_eq s hints]
  generalize c.regain? (c.keep s) = reading at law self
  cases law with
  | value hlegible hs =>
    rename_i s'
    rw [self, hlegible]
    refine ⟨by simp, ?_⟩
    rintro s'' heq
    rw [← Option.some_inj.1 heq]
    exact hs
  | nothing hlegible =>
    rw [hlegible]
    refine ⟨by simp, ?_⟩
    rintro s'' heq
    cases heq

/-- A delay that holds a finite value comes back as it was. -/
theorem reload_exact_unitDelay :
    (⟨Edges.unitDelay (1.5 : Float)⟩ : Component Float).reload?
        (⟨1.5, true⟩ : Edges.Delayed Float) = none ∨
      (⟨Edges.unitDelay (1.5 : Float)⟩ : Component Float).reload?
        (⟨1.5, true⟩ : Edges.Delayed Float) = some (⟨1.5, true⟩ : Edges.Delayed Float) := by
  refine ((reload_exact (d := .unitDelay 1.5) rfl (⟨1.5, true⟩ : Edges.Delayed Float) ?_).1).2 ?_
  · intro n hn
    cases hn
  · left
    decide

/-- Two stages that are held for ever. -/
def heldForever : Stage.Settings Float := ⟨2, 1.0 / 0.0, 0.02 / ((2 : Int) : Float), 0⟩

/-- **A memory can change unnoticed**: the end of an infinite hold is lost, and the block may
change its stage at once. -/
theorem exists_reload_changed : ∃ (d : Design Float) (c : Component Float) (s s' : c.State),
    d.component = .ok c ∧ c.Reachable s ∧ c.reload? s = some s' ∧ s' ≠ s := by
  refine ⟨.stage ⟨2, 1.0 / 0.0, none, 0⟩, ⟨Stage.ofSettings heldForever⟩,
    (⟨0, some (0 + 1.0 / 0.0)⟩ : Stage.State Float), (⟨0, none⟩ : Stage.State Float), rfl,
    .start true 0 ⟨.simulation, 0, none⟩, ?_, ?_⟩
  · have hc : Component.Lawful ⟨Stage.ofSettings heldForever⟩ := Component.lawful_mk _
    rw [hc.reload?_eq]
    · rfl
    · intro n hn
      obtain rfl : n = 0 := List.mem_singleton.1 hn
      decide
  · intro h
    cases h

end Design

end ControlBlocks

import ControlBlocks.Checkpoint.Store
import ControlBlocks.Network.Run

/-!
# Saving during a run

* `AutoSaver` — saves at the end of every so many steps and removes old files;
* `AutoSaver.afterStep` — what it does after one step;
* `AutoSaver.hook` — the same as a hook of a run, which keeps track of the files.
-/

set_option autoImplicit false

namespace ControlBlocks

/-- Saves at the end of every `every` steps; only the newest `keep` files stay, if given. -/
structure AutoSaver where
  every : Nat
  keep : Option Nat
  deriving DecidableEq, Repr

namespace AutoSaver

universe u

variable {σ : Type u} {ο : Type}

/-- Both numbers have to be positive. -/
def check {α : Type} (a : AutoSaver) : Except (Failure α) AutoSaver :=
  if a.every = 0 then
    .error (.block (.configuration "AutoCheckpointer" "interval_steps must be > 0"))
  else if a.keep = some 0 then
    .error (.block (.configuration "AutoCheckpointer" "keep_last must be > 0"))
  else .ok a

/-- Saves if the step closes an interval; gives the name of the new file, if there is one. -/
def afterStep (a : AutoSaver) (m : Model Float σ ο) (d : Checkpoint.Directory) (createdAt : String)
    (s : σ) (c : Clock Float) (step : Nat) (metadata : Datum Float) :
    Except (Failure Float) (Option String × Checkpoint.Directory) :=
  if (step + 1) % a.every ≠ 0 then .ok (none, d)
  else
    (Checkpoint.save m d createdAt s c metadata).map fun (name, d) =>
      match a.keep with
      | some keep => (some name, (d.prune keep).2)
      | none => (some name, d)

/-- What the hook keeps: the directory, and the files saved with their steps, the last one first. -/
structure Store where
  directory : Checkpoint.Directory
  saved : List (Nat × String)

/-- The store before a run. -/
def Store.ofDirectory (d : Checkpoint.Directory) : Store := ⟨d, []⟩

/-- The hook that saves; `metadata` describes a step. -/
def hook (a : AutoSaver) (m : Model Float σ ο) (createdAt : String) (metadata : Nat → Datum Float) :
    Run.Hook Float σ Store := fun step scene =>
  match a.afterStep m scene.store.directory createdAt scene.model scene.clock step
      (metadata step) with
  | .error e => (.error e, scene)
  | .ok (none, directory) => (.ok (), { scene with store := ⟨directory, scene.store.saved⟩ })
  | .ok (some file, directory) =>
    (.ok (), { scene with store := ⟨directory, (step, file) :: scene.store.saved⟩ })

end AutoSaver

end ControlBlocks

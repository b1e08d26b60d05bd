import ControlBlocks.Block.Basic
import Mathlib.Order.Bounds.Basic
import Mathlib.Order.Nat
import Mathlib.Data.Nat.Notation

/-!
# Rises and stretches

Where a signal rises, and for how many calls a value has stayed as it is.

* `Rises` — the calls at which a signal goes from false to true;
* `Changes` — the calls at which a value changes, the first one among them;
* `Stretch` — the unbroken run of calls with one value that ends at a call;
* `stretch_iff_isGreatest` — it begins at the latest change;
* `exists_stretch`, `Stretch.unique` — one ends at each call;
* `Stretch.induction` — the next call goes on with a stretch, or begins another.
-/

set_option autoImplicit false

namespace ControlBlocks

/-! ## Rises -/

section Rises

variable {signal : ℕ → Bool} {i : ℕ}

/-- A signal at the call before; it is false before the first call. -/
def previous (signal : ℕ → Bool) : ℕ → Bool
  | 0 => false
  | i + 1 => signal i

@[simp] theorem previous_succ (signal : ℕ → Bool) (i : ℕ) :
    previous signal (i + 1) = signal i := rfl

/-- The signal is true at the call `i`, and was not at the call before, if there is one. -/
def Rises (signal : ℕ → Bool) (i : ℕ) : Prop := signal i = true ∧ previous signal i = false

instance (signal : ℕ → Bool) (i : ℕ) : Decidable (Rises signal i) := by
  unfold Rises
  infer_instance

theorem rises_iff : Rises signal i ↔ rising (previous signal i) (signal i) = true := by
  simp [Rises, rising]

theorem rises_zero_iff : Rises signal 0 ↔ rising false (signal 0) = true := rises_iff

theorem rises_succ_iff : Rises signal (i + 1) ↔ rising (signal i) (signal (i + 1)) = true :=
  rises_iff

end Rises

/-! ## Stretches -/

variable {β : Type} {v : ℕ → β} {i j s s' : ℕ}

/-- The value at the call `c` is not that of the call before, if there is one. -/
def Changes (v : ℕ → β) (c : ℕ) : Prop := c = 0 ∨ v c ≠ v (c - 1)

/-- From the call `s` to the call `i` the value is the same, and at the call before, if there is
one, it is another. -/
structure Stretch (v : ℕ → β) (s i : ℕ) : Prop where
  le : s ≤ i
  same : ∀ m, s ≤ m → m ≤ i → v m = v i
  begins : Changes v s

/-- Where nothing changes, the value stays. -/
theorem eq_of_not_changes (h : ∀ c, s < c → c ≤ i → ¬ Changes v c) (hsi : s ≤ i) : v i = v s := by
  induction i, hsi using Nat.le_induction with
  | base => rfl
  | succ i hsi ih =>
    have kept : v (i + 1) = v i := by
      by_contra hne
      exact h (i + 1) (Nat.lt_succ_of_le hsi) le_rfl (.inr hne)
    rw [kept]
    exact ih fun c hsc hci => h c hsc (hci.trans (Nat.le_succ i))

/-- The stretch up to a call begins at the latest change. -/
theorem stretch_iff_isGreatest : Stretch v s i ↔ IsGreatest {c | c ≤ i ∧ Changes v c} s := by
  constructor
  · intro h
    refine ⟨⟨h.le, h.begins⟩, ?_⟩
    rintro c ⟨hci, hc⟩
    by_contra hlate
    rcases hc with rfl | hne
    · exact hlate (Nat.zero_le s)
    · apply hne
      rw [h.same c (by omega) hci, h.same (c - 1) (by omega) (by omega)]
  · rintro ⟨⟨hsi, hbegins⟩, hlast⟩
    have unchanged : ∀ c, s < c → c ≤ i → ¬ Changes v c := by
      intro c hsc hci hc
      have : c ≤ s := hlast ⟨hci, hc⟩
      omega
    refine ⟨hsi, ?_, hbegins⟩
    intro m hsm hmi
    rw [eq_of_not_changes unchanged hsi]
    exact eq_of_not_changes (fun c hsc hcm => unchanged c hsc (hcm.trans hmi)) hsm

theorem Stretch.unique (h : Stretch v s i) (h' : Stretch v s' i) : s = s' :=
  (stretch_iff_isGreatest.1 h).unique (stretch_iff_isGreatest.1 h')

/-! ## From one call to the next -/

theorem stretch_zero (v : ℕ → β) : Stretch v 0 0 where
  le := le_rfl
  same := by
    intro m _ hm
    rw [Nat.le_zero.1 hm]
  begins := .inl rfl

/-- For as long as the value stays, the stretch goes on. -/
theorem Stretch.extend (h : Stretch v s j) (hji : j ≤ i)
    (hsame : ∀ m, j ≤ m → m ≤ i → v m = v i) : Stretch v s i where
  le := h.le.trans hji
  same := by
    intro m hsm hmi
    rcases le_total j m with hjm | hmj
    · exact hsame m hjm hmi
    · rw [h.same m hsm hmj]
      exact hsame j le_rfl hji
  begins := h.begins

theorem Stretch.succ (h : Stretch v s i) (hv : v (i + 1) = v i) : Stretch v s (i + 1) := by
  apply h.extend (Nat.le_succ i)
  intro m him hmi
  rcases hmi.lt_or_eq with hlt | rfl
  · rw [hv, le_antisymm (Nat.le_of_lt_succ hlt) him]
  · rfl

theorem stretch_succ (hv : v (i + 1) ≠ v i) : Stretch v (i + 1) (i + 1) where
  le := le_rfl
  same := by
    intro m hm hm'
    rw [le_antisymm hm' hm]
  begins := .inr hv

theorem exists_stretch (v : ℕ → β) (i : ℕ) : ∃ s, Stretch v s i := by
  induction i with
  | zero => exact ⟨0, stretch_zero v⟩
  | succ i ih =>
    obtain ⟨s, hs⟩ := ih
    by_cases hv : v (i + 1) = v i
    · exact ⟨s, hs.succ hv⟩
    · exact ⟨i + 1, stretch_succ hv⟩

/-- What holds of the first call, and of each further one that goes on with the stretch or begins
another, holds of every stretch. -/
@[elab_as_elim]
theorem Stretch.induction {motive : (s i : ℕ) → Stretch v s i → Prop}
    (first : motive 0 0 (stretch_zero v))
    (goesOn : ∀ s i (h : Stretch v s i) (hv : v (i + 1) = v i),
      motive s i h → motive s (i + 1) (h.succ hv))
    (turns : ∀ s i (h : Stretch v s i) (hv : v (i + 1) ≠ v i),
      motive s i h → motive (i + 1) (i + 1) (stretch_succ hv))
    {s i : ℕ} (h : Stretch v s i) : motive s i h := by
  induction i generalizing s with
  | zero =>
    obtain rfl := Nat.le_zero.1 h.le
    exact first
  | succ i ih =>
    obtain ⟨s', before⟩ := exists_stretch v i
    by_cases hv : v (i + 1) = v i
    · obtain rfl := h.unique (before.succ hv)
      exact goesOn s i before hv (ih before)
    · obtain rfl := h.unique (stretch_succ hv)
      exact turns s' i before hv (ih before)

end ControlBlocks

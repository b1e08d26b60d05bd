import ControlBlocks.Proofs.Block.Built
import ControlBlocks.Proofs.Calls.Sampling
import ControlBlocks.Proofs.Exact.Scalar

/-!
# Sample triggers

At which calls a sample trigger fires, said by the instants of its grid.

* `SampleTrigger.Near` — a time lies within the tolerance of an instant;
* `SampleTrigger.isInstant_iff` — such times count, from the shift on;
* `SampleTrigger.fires_iff` — of them, those more than the tolerance after every earlier firing;
* `SampleTrigger.fires_iff_of_near` — where the instants lie apart, only the firings at the same
  instant matter;
* `SampleTrigger.existsUnique_fires_iff` — when an instant has one firing;
* `SampleTrigger.fires_near_instants` — the same of the block, for all instants.
-/

set_option autoImplicit false

namespace ControlBlocks.SampleTrigger

variable {period shift x : Rat} {calls : ℕ → Call Rat Unit} {i j k n : ℕ}

/-! ## Instants -/

/-- The instants of the grid, the first of them at the shift. -/
def instant (period shift : Rat) (k : ℕ) : Rat := shift + k * period

/-- A time lies within the tolerance of an instant. -/
def Near (period shift : Rat) (k : ℕ) (x : Rat) : Prop :=
  |x - instant period shift k| < Scalar.timeTolerance

instance (period shift x : Rat) (k : ℕ) : Decidable (Near period shift k x) :=
  inferInstanceAs (Decidable (_ < _))

theorem near_iff :
    Near period shift k x ↔
      instant period shift k - Scalar.timeTolerance < x ∧
        x < instant period shift k + Scalar.timeTolerance := by
  rw [Near, abs_lt, sub_lt_iff_lt_add', neg_lt_sub_iff_lt_add, sub_lt_iff_lt_add, add_comm x]

theorem timeTolerance_pos : (0 : Rat) < Scalar.timeTolerance := by decide +kernel

/-- Of two instants, the later one is a period later at least. -/
theorem instant_add_period_le (shift : Rat) (hperiod : 0 < period) (hkj : k < j) :
    instant period shift k + period ≤ instant period shift j := by
  have count : (k : Rat) + 1 ≤ j := by exact_mod_cast hkj
  have := mul_le_mul_of_nonneg_right count hperiod.le
  unfold instant
  linarith

/-- From the shift on, a time lies a remainder after an instant. -/
theorem exists_instant_add (hperiod : 0 < period) (hfrom : shift ≤ x) :
    ∃ m, x = instant period shift m + Scalar.floorMod (x - shift) period := by
  obtain ⟨m, hm⟩ := Scalar.exists_add_floorMod (x - shift) period
  have upper := Scalar.floorMod_lt hperiod (x - shift)
  have whole : 0 ≤ m := by
    apply Int.lt_add_one_iff.1
    have : (0 : Rat) * period < (m + 1) * period := by linarith
    exact_mod_cast lt_of_mul_lt_mul_right this hperiod.le
  obtain ⟨m, rfl⟩ := Int.eq_ofNat_of_zero_le whole
  refine ⟨m, ?_⟩
  unfold instant
  push_cast at hm
  linarith

/-- The times that count as instants are those near one, from the shift on. -/
theorem isInstant_iff (hperiod : 0 < period) :
    isInstant period shift x = true ↔ shift ≤ x ∧ ∃ k, Near period shift k x := by
  unfold isInstant
  by_cases hbefore : x - shift < 0
  · have : ¬ shift ≤ x := by linarith
    simp [hbefore, this]
  · have hfrom : shift ≤ x := by linarith
    obtain ⟨m, hm⟩ := exists_instant_add hperiod hfrom
    have lower := Scalar.floorMod_nonneg hperiod (x - shift)
    have upper := Scalar.floorMod_lt hperiod (x - shift)
    have next : instant period shift (m + 1) = instant period shift m + period := by
      unfold instant
      push_cast
      ring
    simp only [if_neg hbefore, Bool.or_eq_true, decide_eq_true_iff, hfrom, true_and]
    -- the time lies between the instants `m` and `m + 1`
    constructor
    · rintro (hafter | hshort)
      · exact ⟨m, near_iff.2 ⟨by linarith [timeTolerance_pos], by linarith⟩⟩
      · exact ⟨m + 1, near_iff.2 ⟨by linarith, by linarith [timeTolerance_pos]⟩⟩
    · rintro ⟨k, hk⟩
      obtain ⟨hk, hk'⟩ := near_iff.1 hk
      rcases lt_trichotomy k m with hkm | rfl | hkm
      · have := instant_add_period_le shift hperiod hkm
        exact .inl (by linarith)
      · exact .inl (by linarith)
      · rcases (Nat.succ_le_of_lt hkm).lt_or_eq with hlater | rfl
        · have := instant_add_period_le shift hperiod hlater
          exact .inr (by linarith)
        · exact .inr (by linarith)

/-- Only the first instant has times before the shift near it. -/
theorem Near.shift_le (h : Near period shift k x) (hperiod : Scalar.timeTolerance < period)
    (hk : 0 < k) : shift ≤ x := by
  have later := instant_add_period_le shift (timeTolerance_pos.trans hperiod) hk
  have first : instant period shift 0 = shift := by
    unfold instant
    push_cast
    ring
  have := (near_iff.1 h).1
  linarith

/-- Where the instants lie apart, so do times near two of them. -/
theorem Near.eq_or_lt {y : Rat} (hx : Near period shift k x) (hy : Near period shift j y)
    (hxy : x ≤ y) (hperiod : 4 * Scalar.timeTolerance < period) :
    k = j ∨ Scalar.timeTolerance < y - x := by
  have positive := timeTolerance_pos
  have hpositive : 0 < period := by linarith
  obtain ⟨hx, hx'⟩ := near_iff.1 hx
  obtain ⟨hy, hy'⟩ := near_iff.1 hy
  rcases lt_trichotomy k j with hkj | rfl | hjk
  · have := instant_add_period_le shift hpositive hkj
    exact .inr (by linarith)
  · exact .inl rfl
  · have := instant_add_period_le shift hpositive hjk
    linarith

/-! ## Firings -/

/-- The trigger fires at the call `i`. -/
def Fires (period shift : Rat) (calls : ℕ → Call Rat Unit) (i : ℕ) : Prop :=
  Block.outputAt (step period shift) ⟨none⟩ calls i = true

theorem step_eq (period shift now : Rat) (s : State Rat) (u : Unit) :
    step period shift now s u =
      (isInstant period shift now && isFresh s now,
        if isInstant period shift now && isFresh s now then ⟨some now⟩ else s) := by
  unfold step
  split
  · rename_i h
    rw [h]
  · rename_i h
    rw [Bool.eq_false_iff.2 h]

theorem memoryAt_succ (period shift : Rat) (calls : ℕ → Call Rat Unit) (i : ℕ) :
    Block.memoryAt (step period shift) ⟨none⟩ calls (i + 1) =
      if Block.outputAt (step period shift) ⟨none⟩ calls i then ⟨some (calls i).time⟩
      else Block.memoryAt (step period shift) ⟨none⟩ calls i := by
  rw [Block.memoryAt, Block.outputAt, step_eq]

/-- Before the call `i`, the trigger remembers the time of the latest firing. -/
theorem exists_latest (period shift : Rat) (calls : ℕ → Call Rat Unit) (i : ℕ) :
    ∃ o, Sampling.IsLatest (Fires period shift calls) i o ∧
      (Block.memoryAt (step period shift) ⟨none⟩ calls i).last =
        o.map fun j => (calls j).time := by
  induction i with
  | zero => exact ⟨none, Sampling.isLatest_zero _, rfl⟩
  | succ i ih =>
    obtain ⟨o, hlatest, hlast⟩ := ih
    by_cases hfires : Block.outputAt (step period shift) ⟨none⟩ calls i = true
    · refine ⟨some i, Sampling.isLatest_succ_of_due hfires, ?_⟩
      rw [memoryAt_succ, if_pos hfires]
      rfl
    · refine ⟨o, hlatest.succ_of_not_due hfires, ?_⟩
      rw [memoryAt_succ, if_neg hfires, hlast]

/-- The trigger fires at the times that count as instants, save within the tolerance after a
firing. -/
theorem fires_iff (hascend : Monotone fun i => (calls i).time) (i : ℕ) :
    Fires period shift calls i ↔
      isInstant period shift (calls i).time = true ∧
        ∀ j < i, Fires period shift calls j →
          Scalar.timeTolerance < (calls i).time - (calls j).time := by
  obtain ⟨o, hlatest, hlast⟩ := exists_latest period shift calls i
  have here : Fires period shift calls i ↔ isInstant period shift (calls i).time = true ∧
      isFresh (Block.memoryAt (step period shift) ⟨none⟩ calls i) (calls i).time = true := by
    rw [Fires, Block.outputAt, step_eq, Bool.and_eq_true]
  rw [here]
  apply and_congr_right
  intro _
  rw [isFresh, hlast]
  cases o with
  | none => exact iff_of_true rfl fun j hj hfires => absurd hfires (hlatest j hj)
  | some l =>
    obtain ⟨⟨hl, hfires⟩, hmax⟩ := hlatest
    have ahead : 0 ≤ (calls i).time - (calls l).time := sub_nonneg.2 (hascend hl.le)
    simp only [Option.map_some, Scalar.magnitude_eq_abs, abs_of_nonneg ahead, decide_eq_true_iff]
    constructor
    · intro hfresh j hj hjfires
      have : (calls j).time ≤ (calls l).time := hascend (hmax ⟨hj, hjfires⟩)
      linarith
    · intro hall
      exact hall l hl hfires

/-! ## One instant -/

/-- Of the first `n` calls, those near an instant. -/
def visits (period shift : Rat) (calls : ℕ → Call Rat Unit) (k n : ℕ) : Set ℕ :=
  {i | i < n ∧ Near period shift k (calls i).time}

theorem exists_isLeast_visits (h : (visits period shift calls k n).Nonempty) :
    ∃ i, IsLeast (visits period shift calls k n) i := by
  classical
  exact ⟨Nat.find h, Nat.isLeast_find h⟩

/-- Where the instants lie apart, only the firings at the same instant matter. -/
theorem fires_iff_of_near (hperiod : 4 * Scalar.timeTolerance < period)
    (hascend : Monotone fun i => (calls i).time) (hi : Near period shift k (calls i).time) :
    Fires period shift calls i ↔
      shift ≤ (calls i).time ∧
        ∀ j < i, Near period shift k (calls j).time → Fires period shift calls j →
          Scalar.timeTolerance < (calls i).time - (calls j).time := by
  have hpositive : 0 < period := by linarith [timeTolerance_pos]
  rw [fires_iff hascend, isInstant_iff hpositive]
  constructor
  · rintro ⟨⟨hfrom, -⟩, hfresh⟩
    exact ⟨hfrom, fun j hj _ => hfresh j hj⟩
  · rintro ⟨hfrom, hfresh⟩
    refine ⟨⟨hfrom, k, hi⟩, ?_⟩
    intro j hj hfires
    obtain ⟨-, m, hm⟩ := (isInstant_iff hpositive).1 ((fires_iff hascend j).1 hfires).1
    rcases hm.eq_or_lt hi (hascend hj.le) hperiod with rfl | hapart
    · exact hfresh j hj hm hfires
    · exact hapart

/-- The first call that visits an instant fires, if it is not before the shift. -/
theorem fires_of_isLeast (hperiod : 4 * Scalar.timeTolerance < period)
    (hascend : Monotone fun i => (calls i).time) (hi : IsLeast (visits period shift calls k n) i)
    (hfrom : shift ≤ (calls i).time) : Fires period shift calls i := by
  obtain ⟨⟨hn, hnear⟩, hfirst⟩ := hi
  refine (fires_iff_of_near hperiod hascend hnear).2 ⟨hfrom, ?_⟩
  intro j hj hjnear _
  have later : i ≤ j := hfirst ⟨hj.trans hn, hjnear⟩
  exact absurd hj (not_lt.2 later)

/-- Of three calls near one instant, one does not fire. -/
theorem not_fires_of_near (hascend : Monotone fun i => (calls i).time) {l : ℕ} (hij : i < j)
    (hjl : j < l) (hi : Near period shift k (calls i).time)
    (hl : Near period shift k (calls l).time) (hfires : Fires period shift calls i)
    (hfires' : Fires period shift calls j) : ¬ Fires period shift calls l := by
  intro hfires''
  have first := ((fires_iff hascend j).1 hfires').2 i hij hfires
  have second := ((fires_iff hascend l).1 hfires'').2 j hjl hfires'
  have := (near_iff.1 hi).1
  have := (near_iff.1 hl).2
  linarith

/-- An instant that is visited from the shift on has one firing just if its visits do not lie more
than the tolerance apart. -/
theorem existsUnique_fires_iff (hperiod : 4 * Scalar.timeTolerance < period)
    (hascend : Monotone fun i => (calls i).time)
    (hfrom : ∀ i ∈ visits period shift calls k n, shift ≤ (calls i).time) :
    (∃! i, i ∈ visits period shift calls k n ∧ Fires period shift calls i) ↔
      (visits period shift calls k n).Nonempty ∧
        ∀ i ∈ visits period shift calls k n, ∀ j ∈ visits period shift calls k n,
          (calls j).time - (calls i).time ≤ Scalar.timeTolerance := by
  constructor
  · rintro ⟨l, ⟨hl, hfires⟩, hunique⟩
    obtain ⟨first, hfirst⟩ := exists_isLeast_visits ⟨l, hl⟩
    obtain rfl : first = l :=
      hunique first ⟨hfirst.1, fires_of_isLeast hperiod hascend hfirst (hfrom first hfirst.1)⟩
    refine ⟨⟨first, hl⟩, ?_⟩
    intro i hi j hj
    have start : (calls first).time ≤ (calls i).time := hascend (hfirst.2 hi)
    by_cases hfires' : Fires period shift calls j
    · obtain rfl := hunique j ⟨hj, hfires'⟩
      linarith [timeTolerance_pos]
    · -- it was kept from firing by the one firing that there is
      have kept : ∃ m < j, Near period shift k (calls m).time ∧ Fires period shift calls m ∧
          (calls j).time - (calls m).time ≤ Scalar.timeTolerance := by
        by_contra hnone
        push Not at hnone
        exact hfires' ((fires_iff_of_near hperiod hascend hj.2).2 ⟨hfrom j hj, hnone⟩)
      obtain ⟨m, hm, hnear, hmfires, hclose⟩ := kept
      obtain rfl := hunique m ⟨⟨hm.trans hj.1, hnear⟩, hmfires⟩
      linarith
  · rintro ⟨visited, hclose⟩
    obtain ⟨first, hfirst⟩ := exists_isLeast_visits visited
    have hfires := fires_of_isLeast hperiod hascend hfirst (hfrom first hfirst.1)
    refine ⟨first, ⟨hfirst.1, hfires⟩, ?_⟩
    rintro j ⟨hj, hfires'⟩
    rcases (hfirst.2 hj).lt_or_eq with hlater | rfl
    · have apart := ((fires_iff hascend j).1 hfires').2 first hlater hfires
      exact absurd apart (not_lt.2 (hclose first hfirst.1 j hj))
    · rfl

/-- **One firing for each time.**  A sample trigger fires only near an instant, and its firings are
more than the tolerance apart.  Near an instant that is visited it fires at least once and at most
twice, and once just if the visits do not lie more than the tolerance apart.  Of the first instant
this is said where no visit comes before the shift. -/
theorem fires_near_instants (hperiod : 4 * Scalar.timeTolerance < period) (shift : Rat) :
    ∃ b, block period shift = .ok b ∧
      ∀ (began : Option Rat) (calls : ℕ → Call Rat Unit), (Monotone fun i => (calls i).time) →
        ∃ fires : ℕ → Bool,
          (∀ n, b.Gives began ((List.range n).map calls) ((List.range n).map fires)) ∧
          (∀ i, fires i = true → ∃ k, Near period shift k (calls i).time) ∧
          (∀ i j, i < j → fires i = true → fires j = true →
            Scalar.timeTolerance < (calls j).time - (calls i).time) ∧
          ∀ k n, (0 < k ∨ ∀ i ∈ visits period shift calls k n, shift ≤ (calls i).time) →
            ((visits period shift calls k n).Nonempty →
              ∃ i ∈ visits period shift calls k n, fires i = true) ∧
            (∀ i ∈ visits period shift calls k n, ∀ j, ∀ l ∈ visits period shift calls k n,
              i < j → j < l → ¬ (fires i = true ∧ fires j = true ∧ fires l = true)) ∧
            ((∃! i, i ∈ visits period shift calls k n ∧ fires i = true) ↔
              (visits period shift calls k n).Nonempty ∧
                ∀ i ∈ visits period shift calls k n, ∀ j ∈ visits period shift calls k n,
                  (calls j).time - (calls i).time ≤ Scalar.timeTolerance) := by
  have positive := timeTolerance_pos
  have hpositive : 0 < period := by linarith
  refine ⟨_, block_eq_ok_iff.2 ⟨hpositive, rfl⟩, ?_⟩
  intro began calls hascend
  refine ⟨Block.outputAt (step period shift) ⟨none⟩ calls,
    Block.timed_stepsAs.gives_range began calls, ?_, ?_, ?_⟩
  · intro i hfires
    exact ((isInstant_iff hpositive).1 ((fires_iff hascend i).1 hfires).1).2
  · intro i j hij hfires hfires'
    exact ((fires_iff hascend j).1 hfires').2 i hij hfires
  · intro k n hk
    have hfrom : ∀ i ∈ visits period shift calls k n, shift ≤ (calls i).time := by
      rcases hk with hlater | hfrom
      · exact fun i hi => hi.2.shift_le (by linarith) hlater
      · exact hfrom
    refine ⟨?_, ?_, existsUnique_fires_iff hperiod hascend hfrom⟩
    · intro hvisited
      obtain ⟨i, hi⟩ := exists_isLeast_visits hvisited
      exact ⟨i, hi.1, fires_of_isLeast hperiod hascend hi (hfrom i hi.1)⟩
    · rintro i hi j l hl hij hjl ⟨hfires, hfires', hfires''⟩
      exact not_fires_of_near hascend hij hjl hi.2 hl.2 hfires hfires' hfires''

/-- Two calls at each of the times zero, one, two and so on. -/
def doubled : ℕ → Call Rat Unit := fun i => ⟨(i / 2 : ℕ), ()⟩

theorem monotone_doubled : Monotone fun i => (doubled i).time := by
  intro i j hij
  have : i / 2 ≤ j / 2 := Nat.div_le_div_right hij
  show ((i / 2 : ℕ) : Rat) ≤ (j / 2 : ℕ)
  exact_mod_cast this

/-- At the time one, the trigger is called twice and fires once. -/
theorem fires_near_doubled :
    ∃ (b : Block Rat Unit (State Rat) Bool) (fires : ℕ → Bool), block 1 0 = .ok b ∧
      b.Gives none ((List.range 4).map doubled) ((List.range 4).map fires) ∧
      ∃! i, i ∈ visits 1 0 doubled 1 4 ∧ fires i = true := by
  have atOne : ∀ i < 4, Near 1 0 1 (doubled i).time → (doubled i).time = 1 := by decide +kernel
  obtain ⟨b, hb, run⟩ :=
    fires_near_instants (by decide +kernel : 4 * Scalar.timeTolerance < (1 : Rat)) 0
  obtain ⟨fires, gives, -, -, instants⟩ := run none doubled monotone_doubled
  obtain ⟨-, -, once⟩ := instants 1 4 (.inl Nat.one_pos)
  refine ⟨b, fires, hb, gives 4, once.2 ⟨⟨2, by omega, by decide +kernel⟩, ?_⟩⟩
  rintro i ⟨hi, hnear⟩ j ⟨hj, hnear'⟩
  rw [atOne i hi hnear, atOne j hj hnear', sub_self]
  exact timeTolerance_pos.le

/-- Two calls of one instant, at both ends of its tolerance, both fire. -/
theorem exists_two_firings :
    ∃ b : Block Rat Unit (State Rat) Bool, block 1 0 = .ok b ∧
      Near 1 0 1 (1 - 3/4000000000) ∧ Near 1 0 1 (1 + 3/4000000000) ∧
      b.Gives none [⟨1 - 3/4000000000, ()⟩, ⟨1 + 3/4000000000, ()⟩] [true, true] := by
  refine ⟨_, block_eq_ok_iff.2 ⟨by decide +kernel, rfl⟩, by decide +kernel, by decide +kernel, ?_⟩
  have outputs : Block.outputs (step (1 : Rat) 0) ⟨none⟩
      [⟨1 - 3/4000000000, ()⟩, ⟨1 + 3/4000000000, ()⟩] = [true, true] := by
    decide +kernel
  exact outputs ▸ Block.timed_gives _ _ _ _ _

end ControlBlocks.SampleTrigger

import ControlBlocks.Proofs.Calls.Basic
import ControlBlocks.Proofs.Exact.Scalar
import ControlBlocks.Proofs.Table.Basic

/-!
# Tables that repeat

The rows of a periodic table occur once in each repetition.  Which of them is given at a time?

* `Table.Periodic.IsCurrent` — the row that was the last to occur;
* `Table.Periodic.Turns` — a new repetition begins within the tolerance after a time;
* `Table.Periodic.isCurrent_iff` — such a row is found by the remainder of the time;
* `Table.Periodic.place_eq_of_not_turns`, `place_eq_last_of_turns` — the row that is given;
* `Table.Periodic.valuesAt_exact` — where it is the row that the tolerance asks for.
-/

set_option autoImplicit false

namespace ControlBlocks.Table.Periodic

/-! ## Parsing -/

section Parse

variable {α : Type} [Scalar α] {block : String} {cells : List (List α)} {scale period : α}
  {p : Periodic α}

/-- A periodic table is accepted just if the period is positive, its cells make a table that begins
at zero and ends before the period, and its values are integers. -/
theorem parse_eq_ok_iff :
    parse block cells scale period = .ok p ↔
      0 < period ∧ Table.parse block cells scale = .ok p.table ∧
        ¬ stampTolerance < Scalar.magnitude (p.table.stamp 0) ∧
        ¬ period ≤ p.table.stamp p.table.last ∧
        p.table.rows.mapM (fun row => row.values.mapM (integer block)) = .ok p.values ∧
        p.period = period := by
  obtain ⟨table, values, period'⟩ := p
  simp only [parse, bind_eq_ok_iff, requirePositive_eq_ok_iff]
  constructor
  · rintro ⟨_, ⟨hperiod, rfl⟩, t, ht, h⟩
    by_cases hfirst : stampTolerance < Scalar.magnitude (t.stamp 0)
    · simp [hfirst] at h
    · by_cases hlast : period ≤ t.stamp t.last
      · simp [hfirst, hlast] at h
      · rw [if_neg hfirst, if_neg hlast, bind_eq_ok_iff] at h
        obtain ⟨vs, hvs, h⟩ := h
        cases h
        exact ⟨hperiod, ht, hfirst, hlast, hvs, rfl⟩
  · rintro ⟨hperiod, ht, hfirst, hlast, hvs, rfl⟩
    refine ⟨_, ⟨hperiod, rfl⟩, table, ht, ?_⟩
    rw [if_neg hfirst, if_neg hlast, bind_eq_ok_iff]
    exact ⟨values, hvs, rfl⟩

end Parse

/-! ## Rows that recur -/

/-- When a row occurs in a repetition; they are numbered from the one that begins at zero. -/
def occurrence (p : Periodic Rat) (i : ℕ) (k : ℤ) : Rat := p.table.stamp i + k * p.period

/-- The row that was the last to occur until a time; of rows that occur at once, the later one in
the table. -/
def IsCurrent (p : Periodic Rat) (time : Rat) (i : ℕ) : Prop :=
  i < p.table.rows.length ∧ ∃ k : ℤ, p.occurrence i k ≤ time ∧
    ∀ j < p.table.rows.length, ∀ m : ℤ, p.occurrence j m ≤ time →
      p.occurrence j m < p.occurrence i k ∨ p.occurrence j m = p.occurrence i k ∧ j ≤ i

/-- A new repetition begins after a time, and not later than the tolerance. -/
def Turns (p : Periodic Rat) (time : Rat) : Prop :=
  ∃ m : ℤ, time < m * p.period ∧ m * p.period ≤ time + stampTolerance

/-- What holds of a periodic table that was accepted. -/
structure Sound (p : Periodic Rat) : Prop where
  table : p.table.Sound
  positive : 0 < p.period
  ends : p.table.stamp p.table.last < p.period
  filled : p.values.length = p.table.rows.length

theorem sound_of_parse {block : String} {cells : List (List Rat)} {scale period : Rat}
    {p : Periodic Rat} (h : parse block cells scale period = .ok p) : p.Sound := by
  obtain ⟨hperiod, htable, -, hends, hvalues, rfl⟩ := parse_eq_ok_iff.1 h
  exact ⟨Table.sound_of_parse htable, hperiod, not_le.1 hends,
    (mapM_eq_ok_iff.1 hvalues).length_eq.symm⟩

variable {p : Periodic Rat} {time : Rat} {i : ℕ}

theorem stampTolerance_pos : (0 : Rat) < stampTolerance := by decide +kernel

namespace Sound

/-- Of two repetitions, the earlier one ends before the later one begins. -/
theorem succ_mul_le (h : p.Sound) {k m : ℤ} (hkm : k < m) :
    ((k : Rat) + 1) * p.period ≤ m * p.period := by
  apply mul_le_mul_of_nonneg_right _ h.positive.le
  exact_mod_cast hkm

theorem le_of_mul_lt (h : p.Sound) {k m : ℤ} (hlt : m * p.period < (k + 1 : ℤ) * p.period) :
    m ≤ k := by
  apply Int.lt_add_one_iff.1
  exact_mod_cast lt_of_mul_lt_mul_right hlt h.positive.le

/-- A row occurs before the next repetition begins. -/
theorem occurrence_lt (h : p.Sound) (hi : i < p.table.rows.length) {k m : ℤ} (hkm : k < m) :
    p.occurrence i k < m * p.period := by
  have ends : p.table.stamp i < p.period :=
    (h.table.ascend i _ (Table.le_last hi) h.table.last_lt).trans_lt h.ends
  calc p.occurrence i k < p.period + k * p.period := add_lt_add_left ends _
    _ = (k + 1) * p.period := by ring
    _ ≤ m * p.period := h.succ_mul_le hkm

/-- A row does not occur before its repetition begins. -/
theorem le_occurrence (h : p.Sound) (hfirst : p.table.stamp 0 = 0) (hi : i < p.table.rows.length)
    (k : ℤ) : k * p.period ≤ p.occurrence i k := by
  have start : 0 ≤ p.table.stamp i := hfirst ▸ h.table.ascend 0 i (Nat.zero_le i) hi
  exact le_add_of_nonneg_left start

/-- The repetition in which a time lies. -/
theorem exists_repetition (h : p.Sound) (time : Rat) :
    ∃ k : ℤ, k * p.period ≤ time ∧ time < (k + 1 : ℤ) * p.period ∧
      Scalar.floorMod time p.period = time - k * p.period := by
  obtain ⟨k, hk⟩ := Scalar.exists_add_floorMod time p.period
  have lower := Scalar.floorMod_nonneg h.positive time
  have upper := Scalar.floorMod_lt h.positive time
  refine ⟨k, by linarith, ?_, by linarith⟩
  push_cast
  linarith

/-- What has occurred until a time did so in the repetition of that time or in an earlier one. -/
theorem le_of_occurrence_le (h : p.Sound) (hfirst : p.table.stamp 0 = 0)
    (hi : i < p.table.rows.length) {k m : ℤ} (hends : time < (k + 1 : ℤ) * p.period)
    (hm : p.occurrence i m ≤ time) : m ≤ k :=
  h.le_of_mul_lt ((h.le_occurrence hfirst hi m).trans_lt (hm.trans_lt hends))

/-- The row that was the last to occur is the last one that the remainder of the time has
reached. -/
theorem isCurrent_iff (h : p.Sound) (hfirst : p.table.stamp 0 = 0) :
    p.IsCurrent time i ↔
      IsGreatest (p.table.reached (Scalar.floorMod time p.period)) i := by
  obtain ⟨k, hbegun, hends, hmod⟩ := h.exists_repetition time
  -- in the repetition of the time, the rows that are reached have occurred
  have now (j : ℕ) : p.occurrence j k ≤ time ↔
      p.table.stamp j ≤ Scalar.floorMod time p.period := by
    rw [hmod, occurrence, le_sub_iff_add_le]
  constructor
  · rintro ⟨hi, m, hm, hlatest⟩
    have same : m = k := by
      apply le_antisymm (h.le_of_occurrence_le hfirst hi hends hm)
      by_contra hearlier
      have before := h.occurrence_lt hi (not_le.1 hearlier)
      have start : p.occurrence 0 k = k * p.period := by rw [occurrence, hfirst, zero_add]
      rcases hlatest 0 h.table.nonempty k (start.trans_le hbegun) with hlt | ⟨heq, -⟩
      · linarith
      · linarith
    subst same
    refine ⟨⟨hi, (now i).1 hm⟩, ?_⟩
    rintro j ⟨hj, hreached⟩
    rcases hlatest j hj m ((now j).2 hreached) with hlt | ⟨-, hle⟩
    · by_contra hlater
      have := h.table.ascend i j (not_le.1 hlater).le hj
      unfold occurrence at hlt
      linarith
    · exact hle
  · rintro ⟨⟨hi, hreached⟩, hmax⟩
    refine ⟨hi, k, (now i).2 hreached, ?_⟩
    intro j hj m hm
    rcases (h.le_of_occurrence_le hfirst hj hends hm).lt_or_eq with hearlier | rfl
    · exact .inl ((h.occurrence_lt hj hearlier).trans_le (h.le_occurrence hfirst hi k))
    · have hle : j ≤ i := hmax ⟨hj, (now j).1 hm⟩
      have ascends : p.occurrence j m ≤ p.occurrence i m :=
        add_le_add_left (h.table.ascend j i hle hi) _
      rcases ascends.lt_or_eq with hlt | heq
      · exact .inl hlt
      · exact .inr ⟨heq, hle⟩

/-! ## The row that is given -/

/-- A new repetition begins within the tolerance just if the remainder does not leave room for
it. -/
theorem turns_iff (h : p.Sound) :
    p.Turns time ↔ p.period ≤ Scalar.floorMod time p.period + stampTolerance := by
  obtain ⟨k, hbegun, hends, hmod⟩ := h.exists_repetition time
  rw [hmod]
  constructor
  · rintro ⟨m, hafter, hwithin⟩
    have later : k < m := by
      have : (k : Rat) * p.period < m * p.period := hbegun.trans_lt hafter
      exact_mod_cast lt_of_mul_lt_mul_right this h.positive.le
    have next := h.succ_mul_le later
    linarith
  · intro hroom
    refine ⟨k + 1, hends, ?_⟩
    push_cast
    linarith

/-- The tolerance is added to the remainder, and not to the time. -/
theorem floorMod_add_stampTolerance (h : p.Sound) (hturns : ¬ p.Turns time) :
    Scalar.floorMod (time + stampTolerance) p.period =
      Scalar.floorMod time p.period + stampTolerance := by
  rw [h.turns_iff, not_le] at hturns
  obtain ⟨k, hbegun, hends, hmod⟩ := h.exists_repetition time
  obtain ⟨m, hbegun', hends', hmod'⟩ := h.exists_repetition (time + stampTolerance)
  have positive := stampTolerance_pos
  have same : m = k := by
    apply le_antisymm
    · apply h.le_of_mul_lt
      rw [hmod] at hturns
      push_cast
      linarith
    · apply h.le_of_mul_lt
      linarith
  rw [hmod, hmod', same]
  ring

/-- Away from the end of a repetition, the row that is given is the one that was the last to occur
when the tolerance is over. -/
theorem place_eq_of_not_turns (h : p.Sound) (hfirst : p.table.stamp 0 = 0)
    (hturns : ¬ p.Turns time) (hi : p.IsCurrent (time + stampTolerance) i) : p.place time = i := by
  rw [h.isCurrent_iff hfirst, h.floorMod_add_stampTolerance hturns] at hi
  rw [place, h.table.rowAtOrBefore?_eq_some_iff.2 hi, Option.getD_some]

/-- At the end of a repetition, it is the last one of the table. -/
theorem place_eq_last_of_turns (h : p.Sound) (hturns : p.Turns time) :
    p.place time = p.table.last := by
  have reached : p.table.stamp p.table.last ≤ Scalar.floorMod time p.period + stampTolerance :=
    h.ends.le.trans (h.turns_iff.1 hturns)
  rw [place, h.table.rowAtOrBefore?_eq_some_iff.2 (h.table.isGreatest_last reached),
    Option.getD_some]

/-- At every time, one row was the last to occur. -/
theorem exists_isCurrent (h : p.Sound) (hfirst : p.table.stamp 0 = 0) (time : Rat) :
    ∃ i, ∀ j, p.IsCurrent time j ↔ j = i := by
  obtain ⟨i, hi⟩ := h.table.exists_isGreatest_reached
    (hfirst.trans_le (Scalar.floorMod_nonneg h.positive time))
  refine ⟨i, fun j => ?_⟩
  rw [h.isCurrent_iff hfirst]
  exact ⟨fun hj => hj.unique hi, fun hj => hj ▸ hi⟩

/-- The values that are given are those of the row. -/
theorem values_place (h : p.Sound) (hplace : p.place time = i) (hi : i < p.table.rows.length) :
    p.values[i]? = some (p.valuesAt time) := by
  have filled : i < p.values.length := h.filled ▸ hi
  rw [valuesAt, hplace, List.getElem?_eq_getElem filled, Option.getD_some]

theorem valuesAt_add_mul (h : p.Sound) (time : Rat) (m : ℤ) :
    p.valuesAt (time + m * p.period) = p.valuesAt time := by
  rw [valuesAt, valuesAt, place, place, Scalar.floorMod_add_mul h.positive.ne']

end Sound

/-- **The row that was the last to occur.**  A table of integers repeats itself with its period.
Where its first stamp is zero, it gives the row that was the last to occur until the tolerance after
the time, save where a new repetition begins within that tolerance: there it gives the last row of
the table, which is another answer unless the two rows agree. -/
theorem valuesAt_exact {cells : List (List Rat)} {scale period : Rat}
    {b : Block Rat Unit Unit (List Int)} (hb : integers cells scale period = .ok b) :
    ∃ p, parse "IntegerTimeTable" cells scale period = .ok p ∧
      (∀ now s, b.call ⟨now, ()⟩ s = .ok (p.valuesAt now, s)) ∧
      (∀ now, ∀ m : ℤ, p.valuesAt (now + m * period) = p.valuesAt now) ∧
      (p.table.stamp 0 = 0 → ∀ now, ∃ i,
        (∀ j, p.IsCurrent (now + stampTolerance) j ↔ j = i) ∧
        (¬ p.Turns now → p.values[i]? = some (p.valuesAt now)) ∧
        (p.Turns now → p.values[p.table.last]? = some (p.valuesAt now)) ∧
        (p.values[i]? = some (p.valuesAt now) ↔
          ¬ p.Turns now ∨ p.values[i]? = p.values[p.table.last]?)) := by
  obtain ⟨p, hparse, rfl⟩ := map_eq_ok_iff.1 hb
  have h : p.Sound := sound_of_parse hparse
  have hperiod : p.period = period := (parse_eq_ok_iff.1 hparse).2.2.2.2.2
  refine ⟨p, hparse, fun _ _ => rfl, fun now m => hperiod ▸ h.valuesAt_add_mul now m, ?_⟩
  intro hfirst now
  obtain ⟨i, hi⟩ := h.exists_isCurrent hfirst (now + stampTolerance)
  have current : p.IsCurrent (now + stampTolerance) i := (hi i).2 rfl
  have away (hturns : ¬ p.Turns now) : p.values[i]? = some (p.valuesAt now) :=
    h.values_place (h.place_eq_of_not_turns hfirst hturns current) current.1
  have atEnd (hturns : p.Turns now) : p.values[p.table.last]? = some (p.valuesAt now) :=
    h.values_place (h.place_eq_last_of_turns hturns) h.table.last_lt
  refine ⟨i, hi, away, atEnd, ?_⟩
  by_cases hturns : p.Turns now
  · simp [hturns, atEnd hturns]
  · simp [hturns, away hturns]

/-- Ten for half a second and then twenty, each second. -/
def halves : Periodic Rat := ⟨⟨[⟨0, [10]⟩, ⟨1/2, [20]⟩]⟩, [[10], [20]], 1⟩

theorem parse_halves : parse "IntegerTimeTable" [[0, 10], [1/2, 20]] 1 1 = .ok halves :=
  parse_eq_ok_iff.2 ⟨by decide +kernel, by decide +kernel, by decide +kernel, by decide +kernel,
    by decide +kernel, rfl⟩

theorem integers_halves :
    integers [[0, 10], [1/2, 20]] 1 1 =
      .ok (.source "IntegerTimeTable" fun now => .ok (halves.valuesAt now)) :=
  map_eq_ok_iff.2 ⟨halves, parse_halves, rfl⟩

theorem turns_halves : halves.Turns (1 - 1/2000000) ∧ ¬ halves.Turns (1/2 - 1/2000000) := by
  have h : halves.Sound := sound_of_parse parse_halves
  rw [h.turns_iff, h.turns_iff]
  decide +kernel

/-- Within the tolerance before its second stamp, the table gives the second row; at the same
distance before the first one comes again, the table gives the second row too. -/
theorem valuesAt_halves :
    ∃ b : Block Rat Unit Unit (List Int), integers [[0, 10], [1/2, 20]] 1 1 = .ok b ∧
      b.call ⟨1/2 - 1/2000000, ()⟩ () = .ok ([20], ()) ∧
      b.call ⟨1 - 1/2000000, ()⟩ () = .ok ([20], ()) := by
  obtain ⟨p, hp, hcall, -, hexact⟩ := valuesAt_exact integers_halves
  obtain rfl : halves = p := Except.ok.inj (parse_halves.symm.trans hp)
  obtain ⟨i, hi, away, -, -⟩ := hexact rfl (1/2 - 1/2000000)
  obtain ⟨-, -, -, atEnd, -⟩ := hexact rfl (1 - 1/2000000)
  have h : halves.Sound := sound_of_parse parse_halves
  have second : 1 = i := by
    rw [← hi, h.isCurrent_iff rfl]
    exact ⟨⟨by decide +kernel, by decide +kernel⟩, fun j hj => Nat.le_of_lt_succ hj.1⟩
  subst second
  have stamp : [20] = halves.valuesAt (1/2 - 1/2000000) := Option.some.inj (away turns_halves.2)
  have wrap : [20] = halves.valuesAt (1 - 1/2000000) := Option.some.inj (atEnd turns_halves.1)
  exact ⟨_, integers_halves, by rw [hcall, ← stamp], by rw [hcall, ← wrap]⟩

/-- The first row comes again within the tolerance, and yet the table gives the second one. -/
theorem exists_wrap_missed :
    ∃ (p : Periodic Rat) (b : Block Rat Unit Unit (List Int)),
      parse "IntegerTimeTable" [[0, 10], [1/2, 20]] 1 1 = .ok p ∧
        integers [[0, 10], [1/2, 20]] 1 1 = .ok b ∧ p.table.stamp 0 = 0 ∧
        p.IsCurrent (1 - 1/2000000 + stampTolerance) 0 ∧ p.values[0]? = some [10] ∧
        b.call ⟨1 - 1/2000000, ()⟩ () = .ok ([20], ()) := by
  have h : halves.Sound := sound_of_parse parse_halves
  refine ⟨halves, _, parse_halves, integers_halves, rfl, ?_, rfl, ?_⟩
  · have later : ∀ j < 2, halves.table.stamp j ≤
        Scalar.floorMod (1 - 1/2000000 + stampTolerance) halves.period → j ≤ 0 := by
      decide +kernel
    rw [h.isCurrent_iff rfl]
    exact ⟨⟨by decide +kernel, by decide +kernel⟩, fun j hj => later j hj.1 hj.2⟩
  · exact congrArg (fun y => Except.ok (y, ()))
      (by decide +kernel : halves.valuesAt (1 - 1/2000000) = [20])

end ControlBlocks.Table.Periodic

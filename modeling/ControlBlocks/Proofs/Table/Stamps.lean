import ControlBlocks.Proofs.Calls.Basic
import ControlBlocks.Proofs.Table.Basic
import ControlBlocks.Source.Interpolation

/-!
# Interpolated tables at their stamps

What a table gives at the time of a stamp, which several of its rows may have.

* `Table.IsLastAt` — the last row with a stamp;
* `Table.EndsInJump` — the last two rows have one stamp;
* `within_stamp` — the values at a stamp are those of the last row with it, save at the end of a
  table that ends in a jump and is interpolated;
* `lookup_stamp_exact` — the same of the block.
-/

set_option autoImplicit false

namespace ControlBlocks

namespace Table

variable {t : Table Rat} {s : Rat} {i : ℕ}

/-- The last row with a stamp. -/
def IsLastAt (t : Table Rat) (s : Rat) (i : ℕ) : Prop :=
  IsGreatest {i | i < t.rows.length ∧ t.stamp i = s} i

/-- The last two rows have one stamp. -/
def EndsInJump (t : Table Rat) : Prop := t.last ≠ 0 ∧ t.stamp (t.last - 1) = t.stamp t.last

instance (t : Table Rat) : Decidable t.EndsInJump := inferInstanceAs (Decidable (_ ∧ _))

/-- At the time of a stamp, the last row with it is the last row that is reached. -/
theorem IsLastAt.isGreatest_reached (hi : t.IsLastAt s i) (h : t.Sound) :
    IsGreatest (t.reached s) i := by
  obtain ⟨⟨hlt, hstamp⟩, hmax⟩ := hi
  refine ⟨⟨hlt, hstamp.le⟩, ?_⟩
  rintro j ⟨hj, hreached⟩
  by_contra hlater
  have later : i ≤ j := (not_le.1 hlater).le
  have same : t.stamp j = s := le_antisymm hreached (hstamp ▸ h.ascend i j later hj)
  exact hlater (hmax ⟨hj, same⟩)

/-- The row after the last one with a stamp has a later stamp. -/
theorem IsLastAt.lt_stamp_succ (hi : t.IsLastAt s i) (h : t.Sound) (hnext : i + 1 < t.rows.length) :
    s < t.stamp (i + 1) := by
  by_contra hle
  have reached : i + 1 ∈ t.reached s := ⟨hnext, not_lt.1 hle⟩
  exact absurd ((hi.isGreatest_reached h).2 reached) (Nat.not_succ_le_self i)

end Table

namespace Interpolation

variable {t : Table Rat} {s : Rat} {i : ℕ}

/-! ## The ends of a line -/

theorem lerp_zero {base v₀ v₁ : List Rat} (h₀ : v₀.length = base.length)
    (h₁ : v₁.length = base.length) : lerp base v₀ v₁ 0 = base := by
  apply List.ext_getElem
  · simp [lerp, h₀, h₁]
  · intro j hj hj'
    simp [lerp]

theorem lerp_one {v₀ v₁ : List Rat} (h : v₀.length = v₁.length) : lerp v₀ v₀ v₁ 1 = v₁ := by
  apply List.ext_getElem
  · simp [lerp, h]
  · intro j hj hj'
    simp [lerp]

/-! ## At a stamp -/

/-- Of the rows with one stamp, the last one counts, save at the end of a table that ends in a jump
and is interpolated: there it is the last one but one. -/
theorem within_stamp (h : t.Sound) (hi : t.IsLastAt s i) (smoothness : Smoothness) :
    within t smoothness s =
      t.values (if smoothness = .linear ∧ i = t.last ∧ t.EndsInJump then i - 1 else i) := by
  have row : t.rowAtOrBefore? s = some i := h.rowAtOrBefore?_eq_some_iff.2 (hi.isGreatest_reached h)
  have hs : t.stamp i = s := hi.1.2
  unfold within
  rw [row]
  simp only [Option.getD_some]
  by_cases hstep : smoothness = .constant ∨ t.last = 0
  · have untouched : ¬ (smoothness = .linear ∧ i = t.last ∧ t.EndsInJump) := by
      rintro ⟨rfl, -, hlast, -⟩
      simp [hlast] at hstep
    rw [if_pos hstep, if_neg untouched]
  · have linear : smoothness = .linear := by
      cases smoothness with
      | linear => rfl
      | constant => simp at hstep
    have several : t.last ≠ 0 := fun hlast => hstep (.inr hlast)
    rw [if_neg hstep]
    by_cases hlast : i = t.last
    · subst hlast
      have before : min t.last (t.last - 1) = t.last - 1 := by omega
      have after : t.last - 1 + 1 = t.last := by omega
      rw [before, after]
      by_cases hjump : t.stamp (t.last - 1) = t.stamp t.last
      · rw [if_pos (by rw [hjump]; simp), if_pos ⟨linear, rfl, several, hjump⟩]
      · have climbs : t.stamp (t.last - 1) < t.stamp t.last :=
          lt_of_le_of_ne (h.ascend _ _ (Nat.sub_le _ _) h.last_lt) hjump
        have span : 0 < t.stamp t.last - t.stamp (t.last - 1) := sub_pos.2 climbs
        rw [if_neg (not_le.2 span), if_neg fun hends => hjump hends.2.2.2, ← hs,
          div_self span.ne']
        apply lerp_one
        rw [h.columns _ ((Nat.sub_le _ _).trans_lt h.last_lt), h.columns _ h.last_lt]
    · have next : i + 1 < t.rows.length := by
        have := Table.le_last hi.1.1
        have := h.last_lt
        omega
      have inner : min i (t.last - 1) = i := by
        have := Table.le_last hi.1.1
        omega
      have span : 0 < t.stamp (i + 1) - t.stamp i := by
        rw [hs]
        exact sub_pos.2 (hi.lt_stamp_succ h next)
      rw [inner, if_neg (not_le.2 span), if_neg fun hends => hlast hends.2.1, hs, sub_self,
        zero_div]
      apply lerp_zero rfl
      rw [h.columns _ next, h.columns _ hi.1.1]

/-- A stamp lies within the range of the table. -/
theorem lookup_stamp (h : t.Sound) (hi : t.IsLastAt s i) (smoothness : Smoothness)
    (extrapolation : Extrapolation) :
    lookup t smoothness extrapolation s = within t smoothness s := by
  have first : t.stamp 0 ≤ s := hi.1.2 ▸ h.ascend 0 i (Nat.zero_le i) hi.1.1
  have final : s ≤ t.stamp t.last := hi.1.2 ▸ h.ascend i t.last (Table.le_last hi.1.1) h.last_lt
  unfold lookup
  rw [if_neg]
  rintro (hbefore | hafter)
  · exact absurd hbefore (not_lt.2 first)
  · exact absurd hafter (not_lt.2 final)

/-! ## The block -/

theorem block_eq_ok_iff {α : Type} [Scalar α] {cells : List (List α)} {c : Config α}
    {b : Block α Unit Unit (List α)} :
    block cells c = .ok b ↔
      ∃ t offset, Table.parse "RealTimeTable" cells c.scale = .ok t ∧
        offsets t c.offset = .ok offset ∧ .source "RealTimeTable" (fun now =>
          .ok (List.zipWith (· + ·) (lookup t c.smoothness c.extrapolation now) offset)) = b := by
  simp [block, bind_eq_ok_iff, pure, Except.pure]

/-- **The last row with a stamp.**  At the time of a stamp, a table gives the values of the last row
with that stamp, whatever it does between its rows and outside its range.  The exception is the end
of a table that is interpolated and whose last two rows have one stamp: there it gives the values of
the last row but one, which is another answer unless the two rows agree. -/
theorem lookup_stamp_exact {cells : List (List Rat)} {c : Config Rat}
    {b : Block Rat Unit Unit (List Rat)} (hb : block cells c = .ok b) :
    let t : Table Rat := ⟨cells.map (Table.rowOf c.scale)⟩
    ∃ offset, offsets t c.offset = .ok offset ∧
      (∀ now s, b.call ⟨now, ()⟩ s = .ok
        (List.zipWith (· + ·) (lookup t c.smoothness c.extrapolation now) offset, s)) ∧
      ∀ s i, t.IsLastAt s i →
        let sinks := c.smoothness = .linear ∧ i = t.last ∧ t.EndsInJump
        lookup t c.smoothness c.extrapolation s = t.values (if sinks then i - 1 else i) ∧
          (lookup t c.smoothness c.extrapolation s = t.values i ↔
            ¬ sinks ∨ t.values (i - 1) = t.values i) := by
  obtain ⟨t, offset, hparse, hoffset, rfl⟩ := block_eq_ok_iff.1 hb
  have h : t.Sound := Table.sound_of_parse hparse
  obtain rfl : t = ⟨cells.map (Table.rowOf c.scale)⟩ := (Table.parse_eq_ok_iff.1 hparse).2.2.2.2.2
  refine ⟨offset, hoffset, fun _ _ => rfl, ?_⟩
  intro s i hi sinks
  have given := (lookup_stamp h hi c.smoothness c.extrapolation).trans
    (within_stamp h hi c.smoothness)
  refine ⟨given, ?_⟩
  rw [given]
  by_cases hsinks : sinks
  · rw [if_pos hsinks]
    simp [hsinks]
  · rw [if_neg hsinks]
    simp [hsinks]

/-- A table that jumps at its first stamp and at its last. -/
def jumps : List (List Rat) := [[0, 1], [0, 3], [1, 4], [1, 8], [1, 9]]

theorem parse_jumps :
    Table.parse "RealTimeTable" jumps 1 = .ok ⟨jumps.map (Table.rowOf 1)⟩ := by
  decide +kernel

theorem block_jumps :
    block jumps Config.standard = .ok (.source "RealTimeTable" fun now => .ok (List.zipWith (· + ·)
      (lookup ⟨jumps.map (Table.rowOf 1)⟩ .linear .periodic now) [0])) :=
  block_eq_ok_iff.2 ⟨⟨jumps.map (Table.rowOf 1)⟩, [0], parse_jumps, rfl, rfl⟩

theorem isLastAt_jumps :
    (⟨jumps.map (Table.rowOf 1)⟩ : Table Rat).IsLastAt 0 1 ∧
      (⟨jumps.map (Table.rowOf 1)⟩ : Table Rat).IsLastAt 1 4 := by
  have first : ∀ j < 5, (⟨jumps.map (Table.rowOf 1)⟩ : Table Rat).stamp j = 0 → j ≤ 1 := by
    decide +kernel
  refine ⟨⟨by decide +kernel, fun j hj => first j hj.1 hj.2⟩, ⟨by decide +kernel, ?_⟩⟩
  exact fun j hj => Nat.le_of_lt_succ hj.1

/-- At its first stamp the interpolated table gives the last row, at its last stamp the last but
one. -/
theorem lookup_stamp_jumps :
    ∃ b : Block Rat Unit Unit (List Rat), block jumps Config.standard = .ok b ∧
      b.call ⟨0, ()⟩ () = .ok ([3], ()) ∧ b.call ⟨1, ()⟩ () = .ok ([8], ()) := by
  obtain ⟨first, last⟩ := isLastAt_jumps
  obtain ⟨offset, hoffset, hcall, hlookup⟩ := lookup_stamp_exact block_jumps
  have zeros : [0] = offset := Except.ok.inj hoffset
  have start := (hlookup 0 1 first).1
  have finish := (hlookup 1 4 last).1
  refine ⟨_, block_jumps, ?_, ?_⟩
  · rw [hcall, ← zeros, start]
    decide +kernel
  · rw [hcall, ← zeros, finish]
    decide +kernel

/-- The last row with the stamp 1 has the value 9, and yet the table gives 8 at that time. -/
theorem exists_earlier_row_given :
    ∃ (t : Table Rat) (b : Block Rat Unit Unit (List Rat)),
      Table.parse "RealTimeTable" jumps 1 = .ok t ∧ block jumps Config.standard = .ok b ∧
        t.IsLastAt 1 4 ∧ t.values 4 = [9] ∧ b.call ⟨1, ()⟩ () = .ok ([8], ()) := by
  refine ⟨_, _, parse_jumps, block_jumps, isLastAt_jumps.2, by decide +kernel, ?_⟩
  exact congrArg (fun y => Except.ok (y, ())) (by decide +kernel :
    List.zipWith (· + ·) (lookup ⟨jumps.map (Table.rowOf 1)⟩ .linear .periodic 1) [0] = [8])

end Interpolation

end ControlBlocks

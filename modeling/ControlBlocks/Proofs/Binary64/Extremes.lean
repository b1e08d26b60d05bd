import ControlBlocks.Proofs.Binary64.TotalOrder

/-!
# The larger and the smaller of floats

What is picked from a list, two by two.

* `Binary64.Picks` — what is asked of a function that picks one of two floats; of numbers that are
  equal it may take either one; `picks_larger`, `picks_smaller`;
* `Picks.foldl_notANumber` — to begin with what is no number is to begin with the first float;
* `Picks.foldl_congr` — from floats without zeros of both signs, all such functions pick the same.
-/

set_option autoImplicit false

namespace ControlBlocks.Binary64

open Float.Model (UnpackedFloat)

variable {wins : Float → Float → Prop} {f g : Float → Float → Float} {x y : Float} {xs : List Float}

/-- The function gives one of two floats: of numbers the one that wins, and beside what is no number
the other one.  Of numbers of which neither wins it may give either. -/
structure Picks (wins : Float → Float → Prop) (f : Float → Float → Float) : Prop where
  left : ∀ {x y}, wins x y ∨ ¬ IsNumber (valueOf y) → f x y = x
  right : ∀ {x y}, wins y x ∨ ¬ IsNumber (valueOf x) → f x y = y
  either : ∀ x y, f x y = x ∨ f x y = y

/-- Only numbers win, over numbers, and not both of two; neither wins only if they are equal. -/
structure Ranks (wins : Float → Float → Prop) : Prop where
  isNumber : ∀ {x y}, wins x y → IsNumber (valueOf x) ∧ IsNumber (valueOf y)
  asymm : ∀ {x y}, wins x y → ¬ wins y x
  total : ∀ {x y}, IsNumber (valueOf x) → IsNumber (valueOf y) → ¬ wins x y → ¬ wins y x →
    units (valueOf x) = units (valueOf y)

theorem ranks_lt : Ranks fun x y => x < y where
  isNumber {x y} h := ⟨((lt_iff x y).1 h).1, ((lt_iff x y).1 h).2.1⟩
  asymm {x y} h h' := lt_asymm ((lt_iff x y).1 h).2.2 ((lt_iff y x).1 h').2.2
  total {x y} hx hy h h' := by
    rw [lt_iff, and_iff_right hx, and_iff_right hy] at h
    rw [lt_iff, and_iff_right hy, and_iff_right hx] at h'
    omega

theorem Ranks.flip (h : Ranks wins) : Ranks fun x y => wins y x where
  isNumber hyx := (h.isNumber hyx).symm
  asymm hyx := h.asymm hyx
  total hx hy hyx hxy := h.total hx hy hxy hyx

theorem beq_self_iff (x : Float) : (x == x) = true ↔ IsNumber (valueOf x) := by
  rw [beq_iff]
  exact ⟨fun h => h.1, fun h => ⟨h, h, rfl⟩⟩

/-- The first of two floats is left only for one that wins over it, or if it is no number. -/
theorem Ranks.picks (h : Ranks wins)
    (hwon : ∀ {x y}, wins y x → f x y = y)
    (hlost : ∀ {x y}, ¬ wins y x → f x y = if x == x then x else y) : Picks wins f where
  left {x y} hxy := by
    have holds : ¬ wins y x := hxy.elim h.asymm fun hy hyx => hy (h.isNumber hyx).1
    rw [hlost holds]
    split
    · rfl
    · rename_i hx
      rw [beq_self_iff] at hx
      rcases hxy with hxy | hy
      · exact absurd (h.isNumber hxy).1 hx
      · rw [eq_of_not_isNumber hx, eq_of_not_isNumber hy]
  right {x y} hyx := by
    rcases hyx with hyx | hx
    · exact hwon hyx
    · have holds : ¬ wins y x := fun hyx => hx (h.isNumber hyx).2
      rw [hlost holds, if_neg (mt (beq_self_iff x).1 hx)]
  either x y := by
    by_cases hyx : wins y x
    · exact .inr (hwon hyx)
    · rw [hlost hyx]
      split
      · exact .inl rfl
      · exact .inr rfl

theorem picks_larger : Picks (fun x y => y < x) Scalar.larger :=
  ranks_lt.flip.picks (fun h => if_pos h) fun h => if_neg h

theorem picks_smaller : Picks (fun x y => x < y) Scalar.smaller :=
  ranks_lt.picks (fun h => if_pos h) fun h => if_neg h

/-- The floats may come in either order. -/
theorem Picks.swap (h : Picks wins f) : Picks wins fun x y => f y x where
  left hxy := h.right hxy
  right hyx := h.left hyx
  either x y := (h.either y x).symm

/-! ## Lists -/

theorem not_isNumber_notANumber : ¬ IsNumber (valueOf Scalar.notANumber) := not_not.2 rfl

/-- What is no number drops out as soon as there is a float. -/
theorem Picks.foldl_notANumber (h : Picks wins f) (x : Float) (xs : List Float) :
    (x :: xs).foldl f Scalar.notANumber = xs.foldl f x := by
  rw [List.foldl_cons, h.right (.inr not_isNumber_notANumber)]

/-- Zeros of both signs are among the floats. -/
def BothZeros (xs : List Float) : Prop := 0.0 ∈ xs ∧ -0.0 ∈ xs

instance (xs : List Float) : Decidable (BothZeros xs) :=
  decidable_of_iff ((∃ i : Fin xs.length, xs[i] = 0.0) ∧ ∃ i : Fin xs.length, xs[i] = -0.0) <| by
    simp only [BothZeros, List.mem_iff_get]
    rfl

theorem BothZeros.mono {ys : List Float} (h : BothZeros xs) (hsub : xs ⊆ ys) : BothZeros ys :=
  ⟨hsub h.1, hsub h.2⟩

theorem eq_zero_of_units (hx : IsNumber (valueOf x)) (hunits : units (valueOf x) = 0) :
    x = if isNegative x then -0.0 else 0.0 := by
  by_cases h : isNegative x = true
  · rw [if_pos h]
    exact eq_of_units_eq hx UnpackedFloat.noConfusion hunits h
  · rw [if_neg h]
    exact eq_of_units_eq hx UnpackedFloat.noConfusion hunits (Bool.eq_false_iff.2 h)

/-- Numbers of both signs are equal only if they are zeros. -/
theorem zeros_of_units_eq (hx : IsNumber (valueOf x)) (hy : IsNumber (valueOf y))
    (hunits : units (valueOf x) = units (valueOf y)) (hneg : isNegative x = true)
    (hpos : isNegative y = false) : x = -0.0 ∧ y = 0.0 := by
  obtain ⟨m, e, -, ⟨-, below, -⟩ | ⟨sign, -, -⟩⟩ := exists_place hx
  · obtain ⟨m', e', -, ⟨sign', -, -⟩ | ⟨-, above, -⟩⟩ := exists_place hy
    · exact absurd (sign'.symm.trans hpos) Bool.noConfusion
    · have left := eq_zero_of_units hx (by omega)
      have right := eq_zero_of_units hy (by omega)
      rw [hneg] at left
      rw [hpos] at right
      exact ⟨left, right⟩
  · exact absurd (hneg.symm.trans sign) Bool.noConfusion

/-- Equal numbers are the same float or zeros of both signs. -/
theorem eq_or_bothZeros (hx : IsNumber (valueOf x)) (hy : IsNumber (valueOf y))
    (hunits : units (valueOf x) = units (valueOf y)) : x = y ∨ BothZeros [x, y] := by
  cases hsign : isNegative x with
  | true =>
    cases hsign' : isNegative y with
    | true => exact .inl (eq_of_units_eq hx hy hunits (hsign.trans hsign'.symm))
    | false =>
      obtain ⟨rfl, rfl⟩ := zeros_of_units_eq hx hy hunits hsign hsign'
      exact .inr ⟨by simp, by simp⟩
  | false =>
    cases hsign' : isNegative y with
    | true =>
      obtain ⟨rfl, rfl⟩ := zeros_of_units_eq hy hx hunits.symm hsign' hsign
      exact .inr ⟨by simp, by simp⟩
    | false => exact .inl (eq_of_units_eq hx hy hunits (hsign.trans hsign'.symm))

/-- Finite floats of the same value are the same, unless that is zero. -/
theorem eq_of_value_eq (hx : IsFinite (valueOf x)) (hy : IsFinite (valueOf y))
    (h : value x = value y) (hzero : value x ≠ 0) : x = y := by
  have hunits : units (valueOf x) = units (valueOf y) :=
    le_antisymm (toRat_le_iff.1 h.le) (toRat_le_iff.1 h.ge)
  refine (eq_or_bothZeros hx.isNumber hy.isNumber hunits).resolve_right fun zeros => hzero ?_
  rcases List.mem_pair.1 zeros.1 with rfl | rfl
  · exact value_zero
  · exact h.trans value_zero

/-- Two functions that pick by the same rule differ at most on zeros of both signs. -/
theorem Picks.eq (hwins : Ranks wins) (hf : Picks wins f) (hg : Picks wins g)
    (hzeros : ¬ BothZeros [x, y]) : f x y = g x y := by
  by_cases hleft : wins x y ∨ ¬ IsNumber (valueOf y)
  · rw [hf.left hleft, hg.left hleft]
  · by_cases hright : wins y x ∨ ¬ IsNumber (valueOf x)
    · rw [hf.right hright, hg.right hright]
    · obtain ⟨hxy, hy⟩ := not_or.1 hleft
      obtain ⟨hyx, hx⟩ := not_or.1 hright
      have hx := not_not.1 hx
      have hy := not_not.1 hy
      obtain rfl := (eq_or_bothZeros hx hy (hwins.total hx hy hxy hyx)).resolve_right hzeros
      rw [(hf.either x x).elim id id, (hg.either x x).elim id id]

theorem Picks.foldl_congr (hwins : Ranks wins) (hf : Picks wins f) (hg : Picks wins g)
    (x : Float) (hzeros : ¬ BothZeros (x :: xs)) : xs.foldl f x = xs.foldl g x := by
  induction xs generalizing x with
  | nil => rfl
  | cons y xs ih =>
    have first : f x y = g x y := by
      refine Picks.eq hwins hf hg fun h => hzeros (h.mono ?_)
      simp
    have picked : f x y ∈ [x, y] := by
      rcases hf.either x y with h | h <;> simp [h]
    rw [List.foldl_cons, List.foldl_cons, ← first]
    refine ih (f x y) fun h => hzeros (h.mono (List.cons_subset.2 ⟨?_, ?_⟩))
    · exact List.mem_append_left xs picked
    · exact fun z hz => List.mem_append_right [x, y] hz

end ControlBlocks.Binary64

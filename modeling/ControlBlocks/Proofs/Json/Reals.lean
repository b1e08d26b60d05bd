import ControlBlocks.Proofs.Decimal.Shortest
import ControlBlocks.Proofs.Json.Lexemes

/-!
# Reals are read back

* `Json.SpellsDecimal` — a text is a number, not an integer, of the value of a decimal;
* `Json.spellsDecimal_writeDecimal` — so is the text that is written for a decimal;
* `Json.number_write` — every finite real is read back from its spelling.
-/

set_option autoImplicit false

namespace ControlBlocks.Json

/-- An exponent is written with its sign. -/
theorem exponentPart_signed (k : ℤ) :
    exponentPart ('e' :: (if k < 0 then '-' else '+') :: Nat.toDigits 10 k.natAbs) =
      some (some k, []) := by
  have read := digits_toDigits k.natAbs
  have value := Nat.ofDigitChars_ten_toDigits (n := k.natAbs)
  by_cases hk : k < 0
  · have signed : -|k| = k := by rw [abs_of_neg hk, neg_neg]
    simp [exponentPart, hk, read, value, signed]
  · have unsigned : |k| = k := abs_of_nonneg (not_lt.1 hk)
    simp [exponentPart, hk, read, value, unsigned]

/-! ## Decimals -/

/-- With a sign or without, the text is read as a number of the value of a decimal, and not as an
integer. -/
def SpellsDecimal (d : Decimal) (cs : List Char) : Prop :=
  ∀ negative, ∃ n : Numeral, numeral ((if negative then ['-'] else []) ++ cs) = some (n, []) ∧
    n.negative = negative ∧ (n.fraction.isSome || n.exponent.isSome) = true ∧
      n.decimal.value = d.value

section Decimals

variable {d : Decimal} {whole tail : List Char} {fraction : Option (List Char)}
  {exponent : Option ℤ}

theorem spellsDecimal_of_parts {cs rest : List Char}
    (hwhole : wholeDigits cs = some (whole, rest))
    (hfraction : fractionDigits rest = some (fraction, tail))
    (hexponent : exponentPart tail = some (exponent, []))
    (hreal : (fraction.isSome || exponent.isSome) = true)
    (hvalue : (⟨Nat.ofDigitChars 10 (whole ++ fraction.getD []) 0,
      exponent.getD 0 - (fraction.getD []).length⟩ : Decimal).value = d.value) :
    SpellsDecimal d cs := fun negative =>
  ⟨_, numeral_of_parts negative hwhole hfraction hexponent, rfl, hreal, hvalue⟩

/-- A decimal that is read as it is. -/
theorem value_congr {coefficient : ℕ} {place : ℤ} (hcoefficient : coefficient = d.coefficient)
    (hplace : place = d.exponent) : (⟨coefficient, place⟩ : Decimal).value = d.value := by
  rw [hcoefficient, hplace]

/-- The digits of a positive number do not start with a zero. -/
theorem exists_toDigits_cons {n : ℕ} (hn : n ≠ 0) :
    ∃ c ds, Nat.toDigits 10 n = c :: ds ∧ c ≠ '0' := by
  cases h : Nat.toDigits 10 n with
  | nil => exact absurd h Nat.toDigits_ne_nil
  | cons c ds =>
    refine ⟨c, ds, rfl, ?_⟩
    rintro rfl
    cases ds with
    | nil =>
      have value := Nat.ofDigitChars_ten_toDigits (n := n)
      rw [h] at value
      exact hn value.symm
    | cons d ds => exact toDigits_ne_zero_cons n d ds h

section Layouts

/-- Below one, zeros follow the point. -/
theorem spellsDecimal_below (hpoint : d.point ≤ 0) :
    SpellsDecimal d (numbers.fixed (Nat.toDigits 10 d.coefficient) d.point).toList := by
  obtain ⟨k, hk⟩ : ∃ k : ℕ, (-d.point).toNat = k := ⟨_, rfl⟩
  have text : (numbers.fixed (Nat.toDigits 10 d.coefficient) d.point).toList =
      '0' :: '.' :: (List.replicate k '0' ++ Nat.toDigits 10 d.coefficient ++ []) := by
    simp [Layout.fixed, Layout.zeros, hpoint, hk]
  rw [text]
  refine spellsDecimal_of_parts (wholeDigits_zero (endsDigits_cons rfl))
    (fractionDigits_point (List.append_ne_nil_of_right_ne_nil _ Nat.toDigits_ne_nil)
      ((allDigits_replicate k).append (allDigits_toDigits _)) endsDigits_nil) rfl rfl ?_
  apply value_congr
  · have zeros : ('0' :: List.replicate k '0') = List.replicate (k + 1) '0' := rfl
    rw [Option.getD_some, List.singleton_append, ← List.cons_append, zeros,
      Nat.ofDigitChars_append, Nat.ofDigitChars_replicate_zero, Nat.mul_zero,
      Nat.ofDigitChars_ten_toDigits]
  · have digits : d.point = (Nat.toDigits 10 d.coefficient).length + d.exponent := rfl
    rw [Option.getD_some, Option.getD_none, List.length_append, List.length_replicate]
    omega

/-- An integral decimal goes on with zeros up to the point, and one more. -/
theorem spellsDecimal_integral (hd : d.coefficient ≠ 0) (hexponent : 0 ≤ d.exponent) :
    SpellsDecimal d (numbers.fixed (Nat.toDigits 10 d.coefficient) d.point).toList := by
  obtain ⟨coefficient, exponent⟩ := d
  obtain ⟨k, rfl⟩ := Int.eq_ofNat_of_zero_le hexponent
  obtain ⟨c, ds, hdigits, hc⟩ := exists_toDigits_cons hd
  have all := allDigits_toDigits coefficient
  have value := Nat.ofDigitChars_ten_toDigits (n := coefficient)
  have point : (⟨coefficient, k⟩ : Decimal).point = (Nat.toDigits 10 coefficient).length + k := rfl
  rw [point]
  dsimp only at hdigits ⊢
  rw [hdigits] at all value ⊢
  have text : (numbers.fixed (c :: ds) ((c :: ds).length + k)).toList =
      c :: (ds ++ List.replicate k '0') ++ ('.' :: (['0'] ++ [])) := by
    have high : ¬ ((c :: ds).length + k : ℤ) ≤ 0 := by
      rw [List.length_cons]
      omega
    have short : ((c :: ds).length : ℤ) ≤ (c :: ds).length + k := by omega
    have rest : ((c :: ds).length + k : ℤ).toNat - (c :: ds).length = k := by omega
    rw [Layout.fixed, if_neg high, if_pos short, rest]
    simp [Layout.zeros, numbers]
  rw [text]
  refine spellsDecimal_of_parts
    (wholeDigits_cons hc (all.append (allDigits_replicate k)) (endsDigits_cons rfl))
    (fractionDigits_point (List.cons_ne_nil _ _) (allDigits_replicate 1) endsDigits_nil) rfl rfl ?_
  have zeros : c :: (ds ++ List.replicate k '0') ++ ['0'] =
      (c :: ds) ++ List.replicate (k + 1) '0' := by
    rw [List.replicate_succ']
    simp
  rw [Option.getD_some, zeros, Nat.ofDigitChars_append, value, Nat.ofDigitChars_replicate_zero,
    Decimal.value, Decimal.value]
  simp only [Option.getD_none, List.length_singleton, zpow_natCast]
  have unit : (10 : ℚ) ^ (0 - ((1 : ℕ) : ℤ)) = 1 / 10 := by norm_num
  rw [unit, Nat.cast_mul, Nat.cast_pow, pow_succ]
  push_cast
  ring

/-- Otherwise the point stands between the digits. -/
theorem spellsDecimal_between (hd : d.coefficient ≠ 0) (hpoint : 0 < d.point)
    (hexponent : d.exponent < 0) :
    SpellsDecimal d (numbers.fixed (Nat.toDigits 10 d.coefficient) d.point).toList := by
  obtain ⟨c, ds, hdigits, hc⟩ := exists_toDigits_cons hd
  obtain ⟨k, hk⟩ : ∃ k : ℕ, d.point = (k + 1 : ℕ) := ⟨(d.point - 1).toNat, by omega⟩
  have all := allDigits_toDigits d.coefficient
  have value := Nat.ofDigitChars_ten_toDigits (n := d.coefficient)
  have point : d.point = (Nat.toDigits 10 d.coefficient).length + d.exponent := rfl
  rw [hk] at hpoint point ⊢
  rw [hdigits, List.length_cons] at point
  rw [hdigits] at all value ⊢
  have text : (numbers.fixed (c :: ds) (k + 1 : ℕ)).toList =
      c :: ds.take k ++ ('.' :: (ds.drop k ++ [])) := by
    have short : ¬ ((c :: ds).length : ℤ) ≤ (k + 1 : ℕ) := by
      rw [List.length_cons]
      omega
    rw [Layout.fixed, if_neg hpoint.not_ge, if_neg short]
    simp
  rw [text]
  have left : AllDigits (c :: ds.take k) := fun x hx =>
    all x (List.mem_of_mem_take (i := k + 1) hx)
  have right : AllDigits (ds.drop k) := fun x hx =>
    all x (List.mem_cons_of_mem c (List.mem_of_mem_drop hx))
  have some : ds.drop k ≠ [] := by
    rw [ne_eq, List.drop_eq_nil_iff]
    omega
  refine spellsDecimal_of_parts (wholeDigits_cons hc left (endsDigits_cons rfl))
    (fractionDigits_point some right endsDigits_nil) rfl rfl ?_
  apply value_congr
  · rw [Option.getD_some, List.cons_append, List.take_append_drop, value]
  · rw [Option.getD_some, Option.getD_none, List.length_drop]
    omega

/-- With an exponent, the point stands after the first digit. -/
theorem spellsDecimal_scientific (hd : d.coefficient ≠ 0) :
    SpellsDecimal d (Layout.scientific (Nat.toDigits 10 d.coefficient) d.point).toList := by
  obtain ⟨c, ds, hdigits, hc⟩ := exists_toDigits_cons hd
  have all := allDigits_toDigits d.coefficient
  have value := Nat.ofDigitChars_ten_toDigits (n := d.coefficient)
  have point : d.point = (Nat.toDigits 10 d.coefficient).length + d.exponent := rfl
  rw [hdigits] at all value point ⊢
  rw [List.length_cons] at point
  obtain ⟨exponent, hexponent⟩ : ∃ exponent, 'e' :: (if d.point - 1 < 0 then '-' else '+') ::
    Nat.toDigits 10 (d.point - 1).natAbs = exponent := ⟨_, rfl⟩
  have read : exponentPart exponent = some (some (d.point - 1), []) :=
    hexponent ▸ exponentPart_signed (d.point - 1)
  have ends : EndsDigits exponent := hexponent ▸ endsDigits_cons rfl
  have sign : (if d.point - 1 < 0 then "-" else "+").toList =
      [if d.point - 1 < 0 then '-' else '+'] := by
    split <;> rfl
  cases ds with
  | nil =>
    have text : (Layout.scientific [c] d.point).toList = c :: [] ++ exponent := by
      rw [← hexponent]
      simp only [Layout.scientific, String.toList_append, sign, Nat.toString_eq_repr,
        Nat.toList_repr]
      simp
    have noPoint : fractionDigits exponent = some (none, exponent) := by
      rw [← hexponent]
      rfl
    rw [text]
    refine spellsDecimal_of_parts (wholeDigits_cons hc all ends) noPoint read rfl ?_
    apply value_congr
    · rw [Option.getD_none, List.append_nil, value]
    · rw [Option.getD_some, Option.getD_none, List.length_nil]
      rw [List.length_nil] at point
      omega
  | cons c' ds =>
    have text : (Layout.scientific (c :: c' :: ds) d.point).toList =
        c :: [] ++ ('.' :: (c' :: ds ++ exponent)) := by
      rw [← hexponent]
      simp only [Layout.scientific, String.toList_append, sign, Nat.toString_eq_repr,
        Nat.toList_repr]
      simp
    have first : AllDigits [c] := fun x hx =>
      all x (List.mem_cons.2 (.inl (List.mem_singleton.1 hx)))
    have others : AllDigits (c' :: ds) := fun x hx => all x (List.mem_cons_of_mem c hx)
    rw [text]
    refine spellsDecimal_of_parts (wholeDigits_cons hc first (endsDigits_cons rfl))
      (fractionDigits_point (List.cons_ne_nil _ _) others ends) read rfl ?_
    apply value_congr
    · rw [Option.getD_some, List.singleton_append, value]
    · rw [Option.getD_some, Option.getD_some]
      omega

end Layouts

/-- **What is written for a decimal is read as its value.** -/
theorem spellsDecimal_writeDecimal (d : Decimal) :
    SpellsDecimal d (numbers.writeDecimal d).toList := by
  unfold Layout.writeDecimal
  split
  case isTrue hd =>
    have text : ("0" ++ if numbers.marksIntegers then ".0" else "").toList =
        '0' :: '.' :: (['0'] ++ []) := rfl
    rw [text]
    have fraction : fractionDigits ('.' :: (['0'] ++ [])) = some (some ['0'], []) :=
      fractionDigits_point (List.cons_ne_nil _ _) (allDigits_replicate 1) endsDigits_nil
    refine spellsDecimal_of_parts (wholeDigits_zero (endsDigits_cons rfl)) fraction rfl rfl ?_
    rw [Decimal.value, Decimal.value, hd, Nat.cast_zero, zero_mul]
    exact zero_mul _
  case isFalse hd =>
    have point : ((Nat.toDigits 10 d.coefficient).length + d.exponent : ℤ) = d.point := rfl
    simp only [point]
    split_ifs
    · rcases le_or_gt d.point 0 with hlow | hhigh
      · exact spellsDecimal_below hlow
      · rcases le_or_gt 0 d.exponent with hint | hfraction
        · exact spellsDecimal_integral hd hint
        · exact spellsDecimal_between hd hhigh hfraction
    · exact spellsDecimal_scientific hd

end Decimals

/-! ## Floats -/

/-- **Every finite real is read back from its spelling.** -/
theorem number_write {x : Float} (hx : Scalar.isFinite x = true) :
    number (numbers.write x).toList = some (.real x, []) := by
  obtain ⟨m, decoded⟩ := Binary64.exists_decode ((Binary64.isFinite_iff x).1 hx)
  obtain ⟨d, shortest⟩ : ∃ d, Decimal.shortest numbers.tie x = some d := by
    rw [Decimal.shortest, decoded]
    exact ⟨_, rfl⟩
  obtain ⟨n, spelled, sign, real, value⟩ := spellsDecimal_writeDecimal d (Binary64.isNegative x)
  obtain ⟨finite, read⟩ := Decimal.toFloat_of_shortest shortest value
  have text : (numbers.write x).toList =
      (if Binary64.isNegative x then ['-'] else []) ++ (numbers.writeDecimal d).toList := by
    rw [Layout.write, shortest]
    simp only [String.toList_append]
    split <;> rfl
  have noInt : n.int? = none := if_pos real
  rw [number, text, spelled, Option.bind_some]
  simp only [Numeral.value?, noInt, Numeral.real?, finite, if_true, sign, read, Option.map_some]

end ControlBlocks.Json

import ControlBlocks.Proofs.Binary64.Extremes
import ControlBlocks.Proofs.Decimal.Reading

/-!
# Shortest decimals are read back

* `Decimal.inside` — the comparison that the search for a shortest decimal makes;
* `Decimal.inReach_of_inside` — what it lets pass is read back;
* `Decimal.inside_down`, `finest_grid` — the finest grid of the search is fine enough;
* `Decimal.ofMagnitude_inReach` — the search finds a decimal that is read back;
* `Decimal.toFloat_of_shortest` — a float is read back from its shortest decimal.
-/

set_option autoImplicit false

namespace ControlBlocks.Decimal

open Binary64

/-! ## Powers of ten and of two -/

/-- Ten is between the tenth root of `2 ^ 33` and the third root of `2 ^ 10`. -/
theorem ten_zpow_le_two_zpow {p q : ℤ} (h : 10 * p ≤ 3 * q) (h' : 33 * p ≤ 10 * q) :
    (10 : ℚ) ^ p ≤ 2 ^ q := by
  have ten : (0 : ℚ) ≤ 10 ^ p := (zpow_pos (by norm_num) p).le
  have two : (0 : ℚ) ≤ 2 ^ q := (zpow_pos two_pos q).le
  rcases le_total 0 p with hp | hp
  · apply le_of_pow_le_pow_left₀ (n := 3) (by decide) two
    calc ((10 : ℚ) ^ p) ^ 3 = (10 ^ 3) ^ p := by rw [← zpow_natCast, zpow_comm, zpow_natCast]
      _ ≤ (2 ^ 10) ^ p := zpow_le_zpow_left₀ hp (by norm_num) (by norm_num)
      _ = 2 ^ (10 * p) := by rw [zpow_mul]; rfl
      _ ≤ 2 ^ (3 * q) := zpow_le_zpow_right₀ one_le_two h
      _ = ((2 : ℚ) ^ q) ^ 3 := by rw [mul_comm, zpow_mul]; rfl
  · apply le_of_pow_le_pow_left₀ (n := 10) (by decide) two
    calc ((10 : ℚ) ^ p) ^ 10 = (10 ^ 10) ^ p := by rw [← zpow_natCast, zpow_comm, zpow_natCast]
      _ = ((10 ^ 10) ^ (-p))⁻¹ := by rw [zpow_neg, inv_inv]
      _ ≤ ((2 ^ 33) ^ (-p))⁻¹ := by
        apply inv_anti₀ (zpow_pos (by norm_num) _)
        exact zpow_le_zpow_left₀ (neg_nonneg.2 hp) (by norm_num) (by norm_num)
      _ = 2 ^ (33 * p) := by rw [zpow_neg, inv_inv, zpow_mul]; rfl
      _ ≤ 2 ^ (10 * q) := zpow_le_zpow_right₀ one_le_two h'
      _ = ((2 : ℚ) ^ q) ^ 10 := by rw [mul_comm, zpow_mul]; rfl

/-! ## The search on one grid -/

/-- A fraction that is written with whole numerator and denominator. -/
theorem scaled_eq (n : ℕ) (e s : ℤ) : 0 < (scaled n e s).2 ∧
    ((scaled n e s).1 : ℚ) * 10 ^ s = (scaled n e s).2 * (n * 2 ^ e) := by
  have two : (2 : ℚ) ^ e * 2 ^ (-e).toNat = 2 ^ e.toNat := by
    rw [← zpow_natCast, ← zpow_natCast, ← zpow_add₀ two_ne_zero]
    congr 1
    omega
  have ten : (10 : ℚ) ^ s * 10 ^ (-s).toNat = 10 ^ s.toNat := by
    rw [← zpow_natCast, ← zpow_natCast, ← zpow_add₀ (by norm_num)]
    congr 1
    omega
  constructor
  · exact Nat.mul_pos (Nat.two_pow_pos _) (Nat.pow_pos (by decide))
  · simp only [scaled, Nat.pow_eq]
    push_cast
    rw [← two, ← ten]
    ring

section Grid

variable {tie : Tie} {m : Magnitude} {isPowerOfTwo : Bool} {s : ℤ} {c : ℕ}

/-- The multiple `c * 10 ^ s` lies in the interval of what reads back to a magnitude. -/
def inside (m : Magnitude) (isPowerOfTwo : Bool) (s : ℤ) (c : ℕ) : Bool :=
  let (unit, den) := scaled 1 (m.exponent - 2) s
  let value := 4 * m.significand * unit
  let low := value - (if isPowerOfTwo then 1 else 2) * unit
  let high := value + 2 * unit
  if m.significand % 2 = 0 then low ≤ c * den && c * den ≤ high
  else low < c * den && c * den < high

/-- The multiple below a magnitude. -/
def down (m : Magnitude) (s : ℤ) : ℕ :=
  4 * m.significand * (scaled 1 (m.exponent - 2) s).1 / (scaled 1 (m.exponent - 2) s).2

/-- The nearer one of the two multiples next to a magnitude. -/
def nearer? (tie : Tie) (m : Magnitude) (s : ℤ) : Option ℕ :=
  let (unit, den) := scaled 1 (m.exponent - 2) s
  let value := 4 * m.significand * unit
  let down := value / den
  let up := down + 1
  let rest := 2 * (value - down * den)
  if rest < den then some down
  else if den < rest then some up
  else match tie with
    | .up => some up
    | .toEven => some (if down % 2 = 0 then down else up)

theorem onGrid?_eq (tie : Tie) (m : Magnitude) (isPowerOfTwo : Bool) (s : ℤ) :
    onGrid? tie m isPowerOfTwo s =
      match inside m isPowerOfTwo s (down m s), inside m isPowerOfTwo s (down m s + 1) with
      | false, false => none
      | true, false => some (down m s)
      | false, true => some (down m s + 1)
      | true, true => nearer? tie m s := rfl

theorem nearer?_eq_or (tie : Tie) (m : Magnitude) (s : ℤ) :
    nearer? tie m s = some (down m s) ∨ nearer? tie m s = some (down m s + 1) := by
  obtain ⟨⟨unit, den⟩, hscaled⟩ : ∃ p, scaled 1 (m.exponent - 2) s = p := ⟨_, rfl⟩
  simp only [nearer?, down, hscaled]
  split
  · exact .inl rfl
  split
  · exact .inr rfl
  cases tie with
  | up => exact .inr rfl
  | toEven =>
    dsimp only
    split
    · exact .inl rfl
    · exact .inr rfl

/-- What the search on a grid takes lies in the interval. -/
theorem inside_of_onGrid? (h : onGrid? tie m isPowerOfTwo s = some c) :
    inside m isPowerOfTwo s c = true := by
  rw [onGrid?_eq] at h
  split at h
  case h_1 => cases h
  case h_2 hdown _ =>
    cases h
    exact hdown
  case h_3 _ hup =>
    cases h
    exact hup
  case h_4 hdown hup =>
    rcases nearer?_eq_or tie m s with same | same
    · cases same.symm.trans h
      exact hdown
    · cases same.symm.trans h
      exact hup

/-- Where the multiple below a magnitude lies in the interval, one is taken. -/
theorem isSome_onGrid? (tie : Tie)
    (h : inside m isPowerOfTwo s (down m s) = true) :
    (onGrid? tie m isPowerOfTwo s).isSome := by
  rw [onGrid?_eq, h]
  cases inside m isPowerOfTwo s (down m s + 1) with
  | false => rfl
  | true => rcases nearer?_eq_or tie m s with same | same <;> simp [same]

/-- The units of the comparison are quarters of the last place. -/
theorem multiple_eq (m : Magnitude) (s : ℤ) (c : ℕ) :
    ((c * (scaled 1 (m.exponent - 2) s).2 : ℕ) : ℚ) =
      4 * (c * 10 ^ s / 2 ^ m.exponent) * (scaled 1 (m.exponent - 2) s).1 := by
  have place : (2 : ℚ) ^ m.exponent ≠ 0 := (zpow_pos two_pos _).ne'
  have quarter : (2 : ℚ) ^ m.exponent = 4 * 2 ^ (m.exponent - 2) := by
    rw [zpow_sub₀ two_ne_zero]
    norm_num
    ring
  have unit : ((scaled 1 (m.exponent - 2) s).1 : ℚ) * 10 ^ s * 4 =
      (scaled 1 (m.exponent - 2) s).2 * 2 ^ m.exponent := by
    rw [(scaled_eq 1 (m.exponent - 2) s).2, quarter]
    push_cast
    ring
  push_cast
  field_simp
  linear_combination -(c : ℚ) * unit

theorem unit_pos (m : Magnitude) (s : ℤ) : 0 < (scaled 1 (m.exponent - 2) s).1 :=
  Nat.mul_pos (Nat.mul_pos one_pos (Nat.two_pow_pos _)) (Nat.pow_pos (by decide))

/-- What the comparison lets pass is read back. -/
theorem inReach_of_inside (hm : 0 < m.significand)
    (hpower : m.significand = 2 ^ 52 → -1074 < m.exponent → isPowerOfTwo = true)
    (h : inside m isPowerOfTwo s c = true) :
    InReach m.significand m.exponent (c * 10 ^ s) := by
  have multiple := multiple_eq m s c
  have unit : (0 : ℚ) < (scaled 1 (m.exponent - 2) s).1 := by exact_mod_cast unit_pos m s
  obtain ⟨⟨u, d⟩, hscaled⟩ : ∃ p, scaled 1 (m.exponent - 2) s = p := ⟨_, rfl⟩
  obtain ⟨k, hk⟩ : ∃ k, (if isPowerOfTwo = true then 1 else 2) = k := ⟨_, rfl⟩
  have hk' : k ≤ 2 := by
    rw [← hk]
    split <;> decide
  simp only [inside, hscaled, hk] at h multiple unit
  generalize hy : (c * 10 ^ s / 2 ^ m.exponent : ℚ) = y at multiple
  generalize c * d = n at h multiple
  have low : ((4 * m.significand * u - k * u : ℕ) : ℚ) = (4 * m.significand - k) * u := by
    have : k * u ≤ 4 * m.significand * u := Nat.mul_le_mul_right u (by omega)
    rw [Nat.cast_sub this]
    push_cast
    ring
  have high : ((4 * m.significand * u + 2 * u : ℕ) : ℚ) = (4 * m.significand + 2) * u := by
    push_cast
    ring
  -- both ends belong to the interval only of an even significand
  obtain ⟨closed, strict⟩ :
      (4 * m.significand * u - k * u ≤ n ∧ n ≤ 4 * m.significand * u + 2 * u) ∧
        (m.significand % 2 = 1 →
          4 * m.significand * u - k * u < n ∧ n < 4 * m.significand * u + 2 * u) := by
    split_ifs at h with heven
    · rw [Bool.and_eq_true, decide_eq_true_iff, decide_eq_true_iff] at h
      exact ⟨h, fun hodd => by omega⟩
    · rw [Bool.and_eq_true, decide_eq_true_iff, decide_eq_true_iff] at h
      exact ⟨h.imp le_of_lt le_of_lt, fun _ => h⟩
  rw [← @Nat.cast_le ℚ, ← @Nat.cast_le ℚ, low, high, multiple, mul_le_mul_iff_left₀ unit,
    mul_le_mul_iff_left₀ unit] at closed
  rw [← @Nat.cast_lt ℚ, ← @Nat.cast_lt ℚ, low, high, multiple, mul_lt_mul_iff_left₀ unit,
    mul_lt_mul_iff_left₀ unit] at strict
  have hk'' : (k : ℚ) ≤ 2 := by exact_mod_cast hk'
  refine ⟨⟨?_, ?_, fun hodd => ⟨?_, ?_⟩⟩, fun hfirst hlow => ?_⟩ <;> rw [hy]
  · linarith
  · linarith
  · have := (strict hodd).1
    linarith
  · have := (strict hodd).2
    linarith
  · rw [if_pos (hpower hfirst hlow)] at hk
    rw [← hk, Nat.cast_one] at closed
    linarith

/-- A grid that is no coarser than a quarter of the last place has a multiple that is read back. -/
theorem inside_down (isPowerOfTwo : Bool) (hm : 0 < m.significand)
    (hs : (10 : ℚ) ^ s ≤ 2 ^ (m.exponent - 2)) : inside m isPowerOfTwo s (down m s) = true := by
  have scale : (0 : ℚ) < 10 ^ s := zpow_pos (by norm_num) s
  have fine : (scaled 1 (m.exponent - 2) s).2 ≤ (scaled 1 (m.exponent - 2) s).1 := by
    have unit := (scaled_eq 1 (m.exponent - 2) s).2
    rw [Nat.cast_one, one_mul] at unit
    have := mul_le_mul_of_nonneg_left hs (Nat.cast_nonneg (α := ℚ) (scaled 1 (m.exponent - 2) s).2)
    rw [← unit] at this
    exact_mod_cast le_of_mul_le_mul_right this scale
  have positive := (scaled_eq 1 (m.exponent - 2) s).1
  obtain ⟨⟨u, d⟩, hscaled⟩ : ∃ p, scaled 1 (m.exponent - 2) s = p := ⟨_, rfl⟩
  obtain ⟨k, hk⟩ : ∃ k, (if isPowerOfTwo = true then 1 else 2) = k := ⟨_, rfl⟩
  have hk' : 1 ≤ k ∧ k ≤ 2 := by
    rw [← hk]
    split <;> decide
  simp only [inside, down, hscaled, hk] at fine positive ⊢
  have steps : u ≤ k * u := Nat.le_mul_of_pos_left u hk'.1
  have room : k * u ≤ 4 * m.significand * u := Nat.mul_le_mul_right u (by omega)
  have below := Nat.div_mul_le_self (4 * m.significand * u) d
  have next := Nat.lt_div_mul_add (a := 4 * m.significand * u) positive
  generalize 4 * m.significand * u / d * d = n at below next ⊢
  have strict : 4 * m.significand * u - k * u < n ∧ n < 4 * m.significand * u + 2 * u := by omega
  split
  · rw [Bool.and_eq_true, decide_eq_true_iff, decide_eq_true_iff]
    exact strict.imp le_of_lt le_of_lt
  · rw [Bool.and_eq_true, decide_eq_true_iff, decide_eq_true_iff]
    exact strict

end Grid

/-! ## The search on all grids -/

section Search

variable {m : Magnitude} {isPowerOfTwo : Bool}

/-- The finest grid of the search is fine enough. -/
theorem finest_grid (hm : m.significand ≠ 0) (hm' : Canonical m.significand m.exponent)
    (he : m.exponent ≤ 971) : (10 : ℚ) ^ (powerAbove m - 20) ≤ 2 ^ (m.exponent - 2) := by
  have bits : m.significand.log2 < 53 := (Nat.log2_lt hm).2 hm'.short
  have low := hm'.low
  apply ten_zpow_le_two_zpow
  · dsimp only [powerAbove]
    omega
  · dsimp only [powerAbove]
    omega

/-- **The search finds a decimal that is read back.** -/
theorem ofMagnitude_inReach (tie : Tie) (hm : m.significand ≠ 0)
    (hm' : Canonical m.significand m.exponent) (he : m.exponent ≤ 971)
    (hpower : m.significand = 2 ^ 52 → -1074 < m.exponent → isPowerOfTwo = true) :
    InReach m.significand m.exponent (ofMagnitude tie m isPowerOfTwo).value := by
  have positive := Nat.pos_of_ne_zero hm
  unfold ofMagnitude
  obtain ⟨found, hfound⟩ : ∃ found, ((List.range 21).findSome? fun (i : ℕ) =>
      (onGrid? tie m isPowerOfTwo (powerAbove m - i)).map fun c =>
        (⟨c, powerAbove m - i⟩ : Decimal)) = found := ⟨_, rfl⟩
  cases found with
  | none =>
    have missed := List.findSome?_eq_none_iff.1 hfound 20 (by decide)
    have some := isSome_onGrid? tie
      (inside_down isPowerOfTwo positive (finest_grid hm hm' he))
    rw [Option.map_eq_none_iff] at missed
    exact absurd some (by rw [show (20 : ℤ) = (20 : ℕ) from rfl, missed]; decide)
  | some d =>
    obtain ⟨i, -, hi⟩ := List.exists_of_findSome?_eq_some hfound
    obtain ⟨c, hc, rfl⟩ := Option.map_eq_some_iff.1 hi
    simp only [hfound, Option.getD_some]
    exact inReach_of_inside positive hpower (inside_of_onGrid? hc)

/-- What the search is told of a float. -/
theorem search_of_decode {x : Float} (h : decode x = some m) : m.exponent ≤ 971 ∧
    (m.significand = 2 ^ 52 → -1074 < m.exponent →
      (fractionBits x = 0 && 1 < exponentBits x) = true) := by
  have short : fractionBits x < 2 ^ 52 := Nat.mod_lt _ (Nat.two_pow_pos 52)
  have range : exponentBits x < 2048 := Nat.mod_lt _ (by decide)
  simp only [decode] at h
  rw [Bool.and_eq_true, decide_eq_true_iff, decide_eq_true_iff]
  split_ifs at h with hinfinite hleast
  · cases h
    exact ⟨show (-1074 : ℤ) ≤ 971 by decide, fun _ hlow => absurd hlow (lt_irrefl _)⟩
  · cases h
    dsimp only
    omega

/-- **A float is read back from its sign and its shortest decimal**, and from every other decimal of
the same value. -/
theorem toFloat_of_shortest {tie : Tie} {x : Float} {d d' : Decimal}
    (h : shortest tie x = some d) (hd : d'.value = d.value) :
    Scalar.isFinite d'.toFloat = true ∧
      (if isNegative x then -d'.toFloat else d'.toFloat) = x := by
  obtain ⟨m, decoded, hm⟩ := Option.map_eq_some_iff.1 h
  obtain ⟨finite, exact⟩ := value_of_decode decoded
  split_ifs at hm with hzero
  · cases hm
    have nothing : d'.coefficient = 0 := by
      have scale : (10 : ℚ) ^ d'.exponent ≠ 0 := (zpow_pos (by norm_num) _).ne'
      rw [value, value, Nat.cast_zero, zero_mul] at hd
      exact_mod_cast (mul_eq_zero.1 hd).resolve_right scale
    have read : d'.toFloat = 0.0 := if_pos nothing
    have zero : units (valueOf x) = 0 := by
      rw [hzero, Nat.cast_zero, zero_mul, signed_zero] at exact
      exact toRat_eq_zero_iff.1 exact
    rw [read]
    exact ⟨rfl, (eq_zero_of_units finite.isNumber zero).symm⟩
  · obtain ⟨range, power⟩ := search_of_decode decoded
    have canonical := (place_of_decode decoded).1
    have reach := ofMagnitude_inReach tie hzero canonical range power
    rw [hm, ← hd] at reach
    obtain ⟨finite', magnitude⟩ :=
      toFloat_of_inReach canonical range (Nat.pos_of_ne_zero hzero) reach
    refine ⟨(isFinite_iff _).2 finite', ?_⟩
    have nonzero : (m.significand : ℚ) * 2 ^ m.exponent ≠ 0 :=
      mul_ne_zero (Nat.cast_ne_zero.2 hzero) (zpow_pos two_pos _).ne'
    rw [← magnitude] at exact nonzero
    rw [signOf] at exact
    split
    case isTrue hsign =>
      obtain ⟨finite'', opposite⟩ := value_neg finite'
      rw [if_pos hsign] at exact
      exact eq_of_value_eq finite'' finite (opposite.trans exact.symm)
        (opposite ▸ neg_ne_zero.2 nonzero)
    case isFalse hsign =>
      rw [if_neg hsign] at exact
      exact eq_of_value_eq finite' finite exact.symm nonzero

end Search

end ControlBlocks.Decimal

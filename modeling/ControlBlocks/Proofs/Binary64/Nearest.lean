import ControlBlocks.Proofs.Binary64.Arithmetic

/-!
# The nearest value

What is rounded becomes the nearest value of the format, and from the middle between two the one
with an even significand.

* `Binary64.Nearest` — the nearest integer, from a middle the even one;
* `Binary64.Represents` — a significand whose two bits compare what was lost with a half;
* `Binary64.InReach` — the numbers that are rounded to a magnitude;
* `Binary64.InReach.eq_of_nearest` — one of them, rounded in its last place, is that magnitude;
* `Binary64.mul_of_inReach`, `div_of_inReach` — products and quotients.
-/

set_option autoImplicit false

namespace ControlBlocks.Binary64

open Float.Model (Format UnpackedFloat)
open Float.Model.UnpackedFloat (Sign ExtendedMantissa Accuracy)

/-! ## The nearest integer -/

/-- The integer is the nearest one; from the middle between two, the even one. -/
structure Nearest (r : ℕ) (x : ℚ) : Prop where
  le : r ≤ x + 1 / 2
  ge : x ≤ r + 1 / 2
  odd : r % 2 = 1 → r < x + 1 / 2 ∧ x < r + 1 / 2

section Nearest

variable {r r' : ℕ} {x : ℚ}

theorem Nearest.le_of_nearest (h : Nearest r x) (h' : Nearest r' x) : r ≤ r' := by
  by_contra hlt
  have next : (r' : ℚ) + 1 ≤ r := by exact_mod_cast not_le.1 hlt
  have above := h.le
  have below := h'.ge
  have neighbours : r = r' + 1 := by
    have : (r : ℚ) ≤ r' + 1 := by linarith
    exact le_antisymm (by exact_mod_cast this) (by exact_mod_cast next)
  -- the number is in the middle between both, and one of them is odd
  rcases Nat.mod_two_eq_zero_or_one r with heven | hodd
  · have := (h'.odd (by omega)).2
    linarith
  · have := (h.odd hodd).1
    linarith

theorem Nearest.unique (h : Nearest r x) (h' : Nearest r' x) : r = r' :=
  le_antisymm (h.le_of_nearest h') (h'.le_of_nearest h)

end Nearest

/-! ## What is lost of a significand -/

section Represented

variable {em : ExtendedMantissa} {x : ℚ}

/-- The significand is the integer part of a number.  The round bit says whether at least a half was
lost, and the sticky bit whether anything beyond that. -/
structure Represents (em : ExtendedMantissa) (x : ℚ) : Prop where
  le : em.mantissa ≤ x
  lt : x < em.mantissa + 1
  round : em.roundBit = true ↔ em.mantissa + 1 / 2 ≤ x
  sticky : em.stickyBit = true ↔ x ≠ em.mantissa ∧ x ≠ em.mantissa + 1 / 2

/-- The two bits of an accuracy compare a fraction with nothing and with a half. -/
theorem represents_add {m : ℕ} {accuracy : Accuracy} {f : ℚ} (hf : 0 ≤ f) (hf' : f < 1)
    (hround : (ExtendedMantissa.ofMantissaAndAccuracy m accuracy).roundBit = true ↔ 1 / 2 ≤ f)
    (hsticky : (ExtendedMantissa.ofMantissaAndAccuracy m accuracy).stickyBit = true ↔
      f ≠ 0 ∧ f ≠ 1 / 2) :
    Represents (ExtendedMantissa.ofMantissaAndAccuracy m accuracy) (m + f) := by
  refine ⟨?_, ?_, ?_, ?_⟩ <;> rw [mantissa_ofMantissaAndAccuracy]
  · exact le_add_of_nonneg_right hf
  · exact add_lt_add_right hf' _
  · rw [hround, add_le_add_iff_left]
  · rw [hsticky, ne_eq, ne_eq, ne_eq, ne_eq, add_eq_left, add_right_inj]

theorem represents_exact (m : ℕ) :
    Represents (ExtendedMantissa.ofMantissaAndAccuracy m .exact) m := by
  rw [← add_zero (m : ℚ)]
  refine represents_add le_rfl zero_lt_one ?_ ?_
  · exact iff_of_false Bool.noConfusion (by norm_num)
  · exact iff_of_false Bool.noConfusion fun h => h.1 rfl

/-- One of the bits is set just if anything was lost. -/
theorem Represents.or_iff (h : Represents em x) :
    (em.roundBit || em.stickyBit) = true ↔ x ≠ em.mantissa := by
  rw [Bool.or_eq_true, h.round, h.sticky]
  constructor
  · rintro (hround | hsticky)
    · intro hx
      linarith
    · exact hsticky.1
  · intro hx
    by_cases hmiddle : x = em.mantissa + 1 / 2
    · exact .inl hmiddle.ge
    · exact .inr ⟨hx, hmiddle⟩

theorem Represents.half (h : Represents em x) : Represents em.shiftRightOne (x / 2) := by
  obtain ⟨q, r, hq, hr⟩ : ∃ q r, em.mantissa = 2 * q + r ∧ (r = 0 ∨ r = 1) :=
    ⟨_, _, (Nat.div_add_mod em.mantissa 2).symm, Nat.mod_two_eq_zero_or_one _⟩
  have quotient : em.shiftRightOne.mantissa = q := by
    show em.mantissa / 2 = q
    omega
  have last : em.shiftRightOne.roundBit = true ↔ r = 1 := by
    show (em.mantissa % 2 != 0) = true ↔ r = 1
    rw [bne_iff_ne]
    omega
  have value : (em.mantissa : ℚ) = 2 * q + r := by
    rw [hq]
    push_cast
    rfl
  have anything : em.shiftRightOne.stickyBit = true ↔ x ≠ 2 * q + r := by
    rw [← value]
    exact h.or_iff
  obtain ⟨le, lt, -, -⟩ := h
  rw [value] at le lt
  -- the last bit is the round bit now
  rcases hr with rfl | rfl
  · rw [Nat.cast_zero, add_zero] at le lt anything
    refine ⟨?_, ?_, ?_, ?_⟩ <;> rw [quotient]
    · linarith
    · linarith
    · rw [last]
      refine iff_of_false zero_ne_one fun hle => ?_
      linarith
    · rw [anything]
      refine ⟨fun hx => ⟨fun hzero => hx ?_, fun hmiddle => ?_⟩, fun hx hzero => hx.1 ?_⟩
      · linarith
      · linarith
      · linarith
  · rw [Nat.cast_one] at le lt anything
    refine ⟨?_, ?_, ?_, ?_⟩ <;> rw [quotient]
    · linarith
    · linarith
    · rw [last]
      refine iff_of_true rfl ?_
      linarith
    · rw [anything]
      refine ⟨fun hx => ⟨fun hzero => ?_, fun hmiddle => hx ?_⟩, fun hx hmiddle => hx.2 ?_⟩
      · linarith
      · linarith
      · linarith

theorem Represents.shiftRight (h : Represents em x) (k : ℕ) :
    Represents (em >>> k) (x / 2 ^ k) := by
  induction k with
  | zero => simpa [HShiftRight.hShiftRight, Nat.repeat] using h
  | succ k ih =>
    rw [pow_succ, ← div_div]
    exact ih.half

/-- The significand is rounded to the nearest one. -/
theorem Represents.nearest (h : Represents em x) : Nearest em.roundedMantissa x := by
  obtain ⟨q, round, sticky⟩ := em
  obtain ⟨le, lt, hround, hsticky⟩ := h
  dsimp only at le lt hround hsticky
  cases round with
  | false =>
    have below : x < q + 1 / 2 := not_le.1 (mt hround.2 Bool.noConfusion)
    have down : (ExtendedMantissa.mk q false sticky).roundedMantissa = q := by cases sticky <;> rfl
    rw [down]
    exact ⟨by linarith, below.le, fun _ => ⟨by linarith, below⟩⟩
  | true =>
    have above : q + 1 / 2 ≤ x := hround.1 rfl
    cases sticky with
    | false =>
      have middle : x = q + 1 / 2 := by
        by_contra hne
        refine Bool.noConfusion (hsticky.2 ⟨fun hx => ?_, hne⟩)
        linarith
      have even : (ExtendedMantissa.mk q true false).roundedMantissa = q + q % 2 := rfl
      rw [even]
      rcases Nat.mod_two_eq_zero_or_one q with hq | hq
      · rw [hq, add_zero]
        exact ⟨by linarith, middle.le, fun hodd => by omega⟩
      · rw [hq]
        refine ⟨?_, ?_, fun hodd => by omega⟩
        · push_cast
          linarith
        · push_cast
          linarith
    | true =>
      have beyond : q + 1 / 2 < x := lt_of_le_of_ne above (hsticky.1 rfl).2.symm
      have up : (ExtendedMantissa.mk q true true).roundedMantissa = q + 1 := rfl
      have next : ((q + 1 : ℕ) : ℚ) = q + 1 := Nat.cast_succ q
      rw [up]
      exact ⟨by linarith, by linarith, fun _ => ⟨by linarith, by linarith⟩⟩

end Represented

/-! ## The numbers that are rounded to a magnitude -/

/-- The number is one of those that are rounded to the magnitude `m * 2 ^ e`: it is at most half of
the last place away, and a quarter below a power of two, where the values are twice as close. -/
structure InReach (m : ℕ) (e : ℤ) (a : ℚ) : Prop where
  nearest : Nearest m (a / 2 ^ e)
  close : m = 2 ^ 52 → -1074 < e → m - 1 / 4 ≤ a / 2 ^ e

section Reach

variable {m n r : ℕ} {e t : ℤ} {a x : ℚ}

theorem InReach.pos (h : InReach m e a) (hm : 0 < m) : 0 < a := by
  have unit : (0 : ℚ) < 2 ^ e := zpow_pos two_pos e
  have one : (1 : ℚ) ≤ m := by exact_mod_cast hm
  have below := h.nearest.le
  have positive : 0 < a / 2 ^ e := by linarith
  exact (div_pos_iff_of_pos_right unit).1 positive

/-- What is rounded to a magnitude of the format is below the next power of two. -/
theorem InReach.lt (h : InReach m e a) (hm : Canonical m e) (he : e ≤ 971) :
    a < 2 ^ (1024 : ℤ) := by
  have unit : (0 : ℚ) < 2 ^ e := zpow_pos two_pos e
  have short : (m : ℚ) + 1 ≤ 2 ^ (53 : ℤ) := by exact_mod_cast hm.short
  have above := h.nearest.ge
  calc a < 2 ^ (53 : ℤ) * 2 ^ e := (div_lt_iff₀ unit).1 (by linarith)
    _ = 2 ^ (53 + e) := (zpow_add₀ two_ne_zero _ _).symm
    _ ≤ 2 ^ (1024 : ℤ) := zpow_le_zpow_right₀ one_le_two (by omega)

/-- What is not rounded to zero is at least half of the smallest magnitude. -/
theorem InReach.ge (h : InReach m e a) (hm : Canonical m e) (pos : 0 < m) :
    2 ^ (-1075 : ℤ) ≤ a := by
  have unit : (0 : ℚ) < 2 ^ e := zpow_pos two_pos e
  have one : (1 : ℚ) ≤ m := by exact_mod_cast pos
  have below := h.nearest.le
  have low := hm.low
  calc (2 : ℚ) ^ (-1075 : ℤ) ≤ 2 ^ (-1 + e) := zpow_le_zpow_right₀ one_le_two (by omega)
    _ = 2 ^ (-1 : ℤ) * 2 ^ e := zpow_add₀ two_ne_zero _ _
    _ ≤ a := (le_div_iff₀ unit).1 (by norm_num; linarith)

/-- The last place of a magnitude is no finer than the one at which the integer part of a number has
all the bits. -/
theorem InReach.le_exponent (h : InReach m e (x * 2 ^ t)) (hm : Canonical m e)
    (hn : Canonical n t) (floor : n ≤ x) : t ≤ e := by
  by_contra! hlt
  obtain ⟨d, rfl⟩ : ∃ d : ℕ, t = e + 1 + d := Int.le.dest hlt |>.imp fun _ h => h.symm
  have short : (m : ℚ) + 1 ≤ 2 ^ 53 := by exact_mod_cast hm.short
  have full : (2 : ℚ) ^ 52 ≤ n := by exact_mod_cast hn.full (hm.low.trans_lt hlt)
  have scaled : x * 2 ^ (e + 1 + d) / 2 ^ e = x * 2 * 2 ^ d := by
    rw [zpow_add₀ two_ne_zero, zpow_add₀ two_ne_zero, zpow_natCast]
    field_simp
  have grown : (1 : ℚ) ≤ 2 ^ d := one_le_pow₀ one_le_two
  have large : x * 2 ≤ x * 2 * 2 ^ d := le_mul_of_one_le_right (by linarith) grown
  have near := h.nearest.ge
  rw [scaled] at near
  linarith

/-- Where it is coarser, the magnitude is the power of two just above all those of the place, and
the number is within half of that place. -/
theorem InReach.eq_first (h : InReach m e (x * 2 ^ t)) (hm : Canonical m e) (hn : Canonical n t)
    (floor : n ≤ x) (ceil : x < n + 1) (hgt : t < e) :
    m = 2 ^ 52 ∧ e = t + 1 ∧ 2 ^ 53 - 1 / 2 ≤ x := by
  obtain ⟨d, rfl⟩ : ∃ d : ℕ, e = t + 1 + d := Int.le.dest hgt |>.imp fun _ h => h.symm
  obtain ⟨nearest, close⟩ := h
  have short : (n : ℚ) + 1 ≤ 2 ^ 53 := by exact_mod_cast hn.short
  have full : 2 ^ 52 ≤ m := hm.full (hn.low.trans_lt hgt)
  have full' : (2 : ℚ) ^ 52 ≤ m := by exact_mod_cast full
  have scaled : x * 2 ^ t / 2 ^ (t + 1 + d) = x / 2 / 2 ^ d := by
    rw [zpow_add₀ two_ne_zero, zpow_add₀ two_ne_zero, zpow_natCast]
    field_simp
  rw [scaled] at nearest close
  have near := nearest.le
  cases d with
  | zero =>
    rw [pow_zero, div_one] at near close
    have first : m = 2 ^ 52 := by
      have : (m : ℚ) < 2 ^ 52 + 1 := by linarith
      exact le_antisymm (Nat.lt_succ_iff.1 (by exact_mod_cast this)) full
    have upper := close first (hn.low.trans_lt hgt)
    rw [first] at upper
    push_cast at upper
    exact ⟨first, add_zero _, by linarith⟩
  | succ d =>
    -- at half of the number or less, there is nothing with all the bits
    have shrunk : x / 2 / 2 ^ (d + 1) ≤ x / 2 / 2 := by
      have grown : (2 : ℚ) ≤ 2 ^ (d + 1) := le_self_pow₀ one_le_two (Nat.succ_ne_zero d)
      have nonneg : 0 ≤ x / 2 := by
        have : (0 : ℚ) ≤ n := Nat.cast_nonneg n
        linarith
      exact div_le_div_of_nonneg_left nonneg two_pos grown
    linarith

/-- A number that is rounded to a magnitude becomes that magnitude when it is rounded in the place
at which its integer part has all the bits. -/
theorem InReach.eq_of_nearest (h : InReach m e (x * 2 ^ t)) (hm : Canonical m e)
    (hn : Canonical n t) (floor : n ≤ x) (ceil : x < n + 1) (hr : Nearest r x) :
    (r : ℚ) * 2 ^ t = m * 2 ^ e := by
  rcases (h.le_exponent hm hn floor).eq_or_lt with rfl | hgt
  · have nearest := h.nearest
    rw [mul_div_cancel_right₀ x (zpow_pos two_pos t).ne'] at nearest
    rw [hr.unique nearest]
  · obtain ⟨rfl, rfl, lower⟩ := h.eq_first hm hn floor ceil hgt
    have short : (n : ℚ) + 1 ≤ 2 ^ 53 := by exact_mod_cast hn.short
    have next : Nearest (2 ^ 53) x := by
      refine ⟨?_, ?_, fun hodd => absurd hodd (by decide)⟩
      · push_cast
        linarith
      · push_cast
        linarith
    rw [hr.unique next, zpow_add₀ two_ne_zero]
    push_cast
    ring

/-! ## Rounding -/

/-- What is rounded becomes the magnitude that has it in reach. -/
theorem roundWithAccuracy_of_inReach (s : Sign) {q : ℕ} {j : ℤ} {accuracy : Accuracy}
    (hx : Represents (ExtendedMantissa.ofMantissaAndAccuracy q accuracy) x)
    (hq : q = 0 → target q j = -1074) (hj : j ≤ target q j) (hm : Canonical m e)
    (h : InReach m e (x * 2 ^ j)) :
    let f := UnpackedFloat.roundWithAccuracy Format.binary64 s q j accuracy
    Rounded f ∧ IsNumber f ∧ toRat f = signed s (m * 2 ^ e) := by
  obtain ⟨k, hk⟩ : ∃ k, (target q j - j).toNat = k := ⟨_, rfl⟩
  have here : j + (k : ℤ) = target q j := by omega
  obtain ⟨rounded, number, value⟩ := roundWithAccuracy_value s accuracy hq hj
  obtain ⟨short, full⟩ := quotient_bits hq hj
  rw [hk] at value short full
  have shifted := hx.shiftRight k
  have kept : (ExtendedMantissa.ofMantissaAndAccuracy q accuracy >>> k).mantissa = q / 2 ^ k := by
    rw [mantissa_shiftRight, mantissa_ofMantissaAndAccuracy]
  have scaled : x * 2 ^ j = x / 2 ^ k * (2 : ℚ) ^ target q j := by
    rw [← here, zpow_add₀ two_ne_zero, zpow_natCast]
    field_simp
  have floor := shifted.le
  have ceil := shifted.lt
  rw [kept] at floor ceil
  rw [scaled] at h
  refine ⟨rounded, number, value.trans ?_⟩
  rw [h.eq_of_nearest hm ⟨short, le_max_right _ _, full⟩ floor ceil shifted.nearest]

/-! ## Products and quotients -/

variable {p q : ℕ} {i j : ℤ} {pos : 0 < p} {pos' : 0 < q}

/-- A product becomes the magnitude that has it in reach. -/
theorem mul_of_inReach (enough : i + j ≤ target (p * q) (i + j)) (hm : Canonical m e)
    (h : InReach m e (p * 2 ^ i * (q * 2 ^ j))) :
    let f := UnpackedFloat.mul Format.binary64 (.finite .positive p i pos)
      (.finite .positive q j pos')
    Rounded f ∧ IsNumber f ∧ toRat f = m * 2 ^ e := by
  have product : (p : ℚ) * 2 ^ i * (q * 2 ^ j) = (p * q : ℕ) * 2 ^ (i + j) :=
    signed_mul_two_pow .positive .positive p q i j
  rw [product] at h
  exact roundWithAccuracy_of_inReach .positive (represents_exact (p * q))
    (fun hzero => absurd hzero (Nat.mul_pos pos pos').ne') enough hm h

/-- The numerator of a fraction is compared with half of the denominator. -/
theorem represents_fraction {n r d : ℕ} (hr : r < d) :
    Represents (ExtendedMantissa.ofMantissaAndAccuracy n (UnpackedFloat.accuracyOfFraction r d))
      (n + r / d) := by
  have positive : (0 : ℚ) < d := by exact_mod_cast Nat.zero_lt_of_lt hr
  have below : (r / d : ℚ) < 1 := (div_lt_one positive).2 (by exact_mod_cast hr)
  unfold UnpackedFloat.accuracyOfFraction
  split_ifs with hzero
  · rw [hzero, Nat.cast_zero, zero_div, add_zero]
    exact represents_exact n
  · have some : (0 : ℚ) < r / d := div_pos (by exact_mod_cast Nat.pos_of_ne_zero hzero) positive
    have middle : (r / d : ℚ) = 2 * r / d / 2 := by ring
    rcases lt_trichotomy (2 * r) d with hlt | heq | hgt
    · have less : (r / d : ℚ) < 1 / 2 := by
        rw [middle, div_lt_div_iff_of_pos_right two_pos, div_lt_one positive]
        exact_mod_cast hlt
      rw [compare_lt_iff_lt.2 hlt]
      refine represents_add some.le below ?_ ?_
      · exact iff_of_false Bool.noConfusion less.not_ge
      · exact iff_of_true rfl ⟨some.ne', less.ne⟩
    · have half : (r / d : ℚ) = 1 / 2 := by
        rw [middle, div_left_inj' two_ne_zero, div_eq_one_iff_eq positive.ne']
        exact_mod_cast heq
      rw [compare_eq_iff_eq.2 heq]
      refine represents_add some.le below ?_ ?_
      · exact iff_of_true rfl half.ge
      · exact iff_of_false Bool.noConfusion fun h => h.2 half
    · have more : 1 / 2 < (r / d : ℚ) := by
        rw [middle, div_lt_div_iff_of_pos_right two_pos, one_lt_div positive]
        exact_mod_cast hgt
      rw [compare_gt_iff_gt.2 hgt]
      refine represents_add some.le below ?_ ?_
      · exact iff_of_true rfl more.le
      · exact iff_of_true rfl ⟨some.ne', more.ne'⟩

theorem represents_div {n d : ℕ} (hd : 0 < d) :
    Represents (ExtendedMantissa.ofMantissaAndAccuracy (n / d)
      (UnpackedFloat.accuracyOfFraction (n % d) d)) (n / d : ℚ) := by
  have positive : (d : ℚ) ≠ 0 := by exact_mod_cast hd.ne'
  have divided : (n : ℚ) = d * (n / d : ℕ) + (n % d : ℕ) := by
    exact_mod_cast (Nat.div_add_mod n d).symm
  have split : (n : ℚ) / d = (n / d : ℕ) + (n % d : ℕ) / d := by
    rw [divided, add_div, mul_div_cancel_left₀ _ positive]
  rw [split]
  exact represents_fraction (Nat.mod_lt n hd)

/-- A quotient becomes the magnitude that has it in reach. -/
theorem div_of_inReach (hm : Canonical m e) (h : InReach m e (p * 2 ^ i / (q * 2 ^ j))) :
    let f := UnpackedFloat.div Format.binary64 (.finite .positive p i pos)
      (.finite .positive q j pos')
    Rounded f ∧ IsNumber f ∧ toRat f = m * 2 ^ e := by
  obtain ⟨-, hzero, enough⟩ := divCore_spec i j pos pos'
  obtain ⟨k, t, shift, -, core⟩ := exists_divCore_eq p q i j
  have result : UnpackedFloat.div Format.binary64 (.finite .positive p i pos)
      (.finite .positive q j pos') = UnpackedFloat.roundWithAccuracy Format.binary64 .positive
        (p * 2 ^ k / q) t (UnpackedFloat.accuracyOfFraction (p * 2 ^ k % q) q) := by
    simp only [UnpackedFloat.div, core]
    rfl
  have quotient : (p : ℚ) * 2 ^ i / (q * 2 ^ j) = (p * 2 ^ k : ℕ) / q * 2 ^ t := by
    have exponent : (2 : ℚ) ^ i = 2 ^ k * 2 ^ t * 2 ^ j := by
      rw [← zpow_natCast, shift, ← zpow_add₀ two_ne_zero, ← zpow_add₀ two_ne_zero]
      congr 1
      ring
    rw [exponent]
    push_cast
    field_simp
  rw [quotient] at h
  simp only [core] at hzero enough
  rw [result]
  exact roundWithAccuracy_of_inReach .positive (represents_div pos') hzero enough hm h

/-! ## Floats -/

variable {y z : Float} {f : UnpackedFloat}

/-- A rounded value that is not too large is the value of a float. -/
theorem value_of_stored (hy : valueOf y = stored f)
    (hf : Rounded f ∧ IsNumber f ∧ toRat f = m * 2 ^ e) (hm : Canonical m e) (he : e ≤ 971) :
    IsFinite (valueOf y) ∧ value y = m * 2 ^ e := by
  obtain ⟨rounded, number, same⟩ := hf
  have nonneg : (0 : ℚ) ≤ m * 2 ^ e := mul_nonneg (Nat.cast_nonneg m) (zpow_pos two_pos e).le
  have small : IsFinite (stored f) := by
    rw [isFinite_stored_iff rounded number, same, abs_of_nonneg nonneg]
    exact hm.mul_two_pow_lt_iff.2 he
  rw [← hy] at small
  have crosses := isRounding_of_isFinite hy rounded (.refl _) small
  refine ⟨small, (crosses.eq_of_onGrid ?_).trans same⟩
  rw [same]
  exact ⟨.positive, m, e, hm, rfl⟩

/-- A positive float is unpacked to its magnitude. -/
theorem exists_positive (hy : IsFinite (valueOf y)) (h : 0 < value y) :
    ∃ m e pos, valueOf y = .finite .positive m e pos ∧ Canonical m e ∧ value y = m * 2 ^ e := by
  have canonical := inFormat_valueOf y
  rw [value] at h ⊢
  cases hf : valueOf y with
  | notANumber => exact (hf ▸ hy).elim
  | infinity s => exact (hf ▸ hy).elim
  | zero s =>
    rw [hf, toRat_zero] at h
    exact absurd h (lt_irrefl 0)
  | finite s m e pos =>
    rw [hf] at h canonical
    rw [toRat_finite canonical.1.low] at h ⊢
    cases s with
    | negative =>
      have : (0 : ℚ) ≤ m * 2 ^ e := mul_nonneg (Nat.cast_nonneg m) (zpow_pos two_pos e).le
      exact absurd h (not_lt.2 (neg_nonpos.2 this))
    | positive => exact ⟨m, e, pos, rfl, canonical.1, rfl⟩

/-- A product of positive floats is the magnitude that has the exact product in reach. -/
theorem value_mul_of_inReach (hy : IsFinite (valueOf y)) (hz : IsFinite (valueOf z))
    (hy' : 0 < value y) (hz' : 0 < value z) (hm : Canonical m e) (he : e ≤ 971)
    (h : InReach m e (value y * value z)) :
    IsFinite (valueOf (y * z)) ∧ value (y * z) = m * 2 ^ e := by
  obtain ⟨p, i, pos, left, canonical, same⟩ := exists_positive hy hy'
  obtain ⟨q, j, pos', right, canonical', same'⟩ := exists_positive hz hz'
  rw [same, same'] at h
  refine value_of_stored (valueOf_mul y z) ?_ hm he
  rw [left, right]
  exact mul_of_inReach (le_target_mul canonical canonical' pos pos') hm h

/-- A quotient of positive floats is the magnitude that has the exact quotient in reach. -/
theorem value_div_of_inReach (hy : IsFinite (valueOf y)) (hz : IsFinite (valueOf z))
    (hy' : 0 < value y) (hz' : 0 < value z) (hm : Canonical m e) (he : e ≤ 971)
    (h : InReach m e (value y / value z)) :
    IsFinite (valueOf (y / z)) ∧ value (y / z) = m * 2 ^ e := by
  obtain ⟨p, i, pos, left, -, same⟩ := exists_positive hy hy'
  obtain ⟨q, j, pos', right, -, same'⟩ := exists_positive hz hz'
  rw [same, same'] at h
  refine value_of_stored (valueOf_div y z) ?_ hm he
  rw [left, right]
  exact div_of_inReach hm h

end Reach

end ControlBlocks.Binary64

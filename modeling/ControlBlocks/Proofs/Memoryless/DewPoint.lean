import Mathlib
import ControlBlocks.Memoryless.MoistAir
import ControlBlocks.Proofs.Block.Built
import ControlBlocks.Proofs.Exact.Scalar

/-!
# The dew point

How the dew point goes with the dry bulb and with the humidity, in exact arithmetic.  Of the
logarithm all that counts is that it is negative and does not decrease where the humidity is kept.

* `warmth` — what a temperature adds to the exponent of the vapor; `dewOf` — the temperature at
  which the exponent is that of saturated vapor;
* `dewOf_warmth` — of saturated air that is the temperature itself;
* `strictMonoOn_warmth`, `strictMonoOn_dewOf` — both increase, the second below its pole, which the
  first never reaches (`warmth_lt`);
* `below_dry_bulb` — the block.
-/

set_option autoImplicit false

namespace ControlBlocks.MoistAir

open Set

variable {log : ℝ → ℝ} {t t' phi phi' : ℝ}

/-- What a temperature in degrees Celsius adds to the exponent of the vapor in the air. -/
noncomputable def warmth (celsius : ℝ) : ℝ := 17.27 * celsius / (237.7 + celsius)

/-- The temperature of saturated vapor with an exponent. -/
noncomputable def dewOf (exponent : ℝ) : ℝ := 237.7 * exponent / (17.27 - exponent)

/-- What a humidity adds to the exponent: nothing, if the air were saturated. -/
noncomputable def drought (log : ℝ → ℝ) (humidity : ℝ) : ℝ :=
  log (Scalar.clamp 0.01 0.99 humidity)

theorem dewPointCelsius_eq (log : ℝ → ℝ) (t phi : ℝ) :
    @dewPointCelsius ℝ (.real log) t phi = dewOf (warmth t + drought log phi) := rfl

/-! ## The two quotients -/

section Quotients

variable {x y : ℝ}

theorem warmth_eq (ht : -237.7 < t) : warmth t = 17.27 - 17.27 * 237.7 / (237.7 + t) := by
  have above : 0 < 237.7 + t := neg_lt_iff_pos_add'.1 ht
  rw [warmth]
  field_simp
  ring

theorem strictMonoOn_warmth : StrictMonoOn warmth (Ioi (-237.7)) := by
  intro t ht t' ht' h
  have above : 0 < 237.7 + t := neg_lt_iff_pos_add'.1 ht
  rw [warmth_eq ht, warmth_eq ht']
  gcongr

/-- The exponent stays below the pole of the dew point. -/
theorem warmth_lt (ht : -237.7 < t) : warmth t < 17.27 := by
  have above : 0 < 237.7 + t := neg_lt_iff_pos_add'.1 ht
  rw [warmth_eq ht, sub_lt_self_iff]
  positivity

theorem dewOf_eq (hx : x < 17.27) : dewOf x = 17.27 * 237.7 / (17.27 - x) - 237.7 := by
  have below : 0 < 17.27 - x := sub_pos.2 hx
  rw [dewOf]
  field_simp
  ring

theorem strictMonoOn_dewOf : StrictMonoOn dewOf (Iio 17.27) := by
  intro x hx y hy h
  have below : 0 < 17.27 - y := sub_pos.2 hy
  rw [dewOf_eq hx, dewOf_eq hy]
  gcongr

/-- The dew point of saturated air is its temperature. -/
theorem dewOf_warmth (ht : -237.7 < t) : dewOf (warmth t) = t := by
  have above : 0 < 237.7 + t := neg_lt_iff_pos_add'.1 ht
  rw [dewOf_eq (warmth_lt ht), warmth_eq ht]
  field_simp
  ring

end Quotients

/-! ## The humidity -/

section Humidity

theorem clamp_humidity (phi : ℝ) :
    Scalar.clamp 0.01 0.99 phi = max 0.01 (min phi 0.99) :=
  Scalar.clamp_real (by norm_num) phi

/-- A humidity is kept within the range of the formula. -/
theorem clamp_humidity_mem (phi : ℝ) : Scalar.clamp 0.01 0.99 phi ∈ Icc (0.01 : ℝ) 0.99 := by
  rw [clamp_humidity]
  exact ⟨le_max_left _ _, max_le (by norm_num) (min_le_right _ _)⟩

theorem drought_neg (hneg : ∀ x ∈ Icc (0.01 : ℝ) 0.99, log x < 0) (phi : ℝ) :
    drought log phi < 0 :=
  hneg _ (clamp_humidity_mem phi)

theorem drought_mono (hmono : MonotoneOn log (Icc 0.01 0.99)) (h : phi ≤ phi') :
    drought log phi ≤ drought log phi' := by
  refine hmono (clamp_humidity_mem phi) (clamp_humidity_mem phi') ?_
  rw [clamp_humidity, clamp_humidity]
  gcongr

/-- The exponent of air that is not saturated is below that of saturated air. -/
theorem exponent_lt (hneg : ∀ x ∈ Icc (0.01 : ℝ) 0.99, log x < 0) (t phi : ℝ) :
    warmth t + drought log phi < warmth t :=
  add_lt_of_neg_right _ (drought_neg hneg phi)

end Humidity

/-! ## The block -/

@[simp] theorem Temperature.celsius_ofCelsius (c : ℝ) : (Temperature.ofCelsius c).celsius = c :=
  add_sub_cancel_right c _

theorem Temperature.kelvin_lt_iff {T T' : Temperature ℝ} :
    T.kelvin < T'.kelvin ↔ T.celsius < T'.celsius :=
  (sub_lt_sub_iff_right _).symm

theorem Temperature.kelvin_le_iff {T T' : Temperature ℝ} :
    T.kelvin ≤ T'.kelvin ↔ T.celsius ≤ T'.celsius :=
  (sub_le_sub_iff_right _).symm

theorem reading_real (d : DryBulb ℝ) :
    d.reading = .ok (d.temperature.celsius, d.humidity) := by
  simp only [DryBulb.reading, requireFinite, Scalar.isFinite_real]
  rfl

/-- **The dew point is below the dry bulb.**  Above the pole of the formula, and whatever the
humidity is, no divisor is zero, and the dew point is strictly below the dry bulb.  It does not
fall where the humidity rises, and it rises with the dry bulb where the humidity stays. -/
theorem below_dry_bulb (hneg : ∀ x ∈ Icc (0.01 : ℝ) 0.99, log x < 0)
    (hmono : MonotoneOn log (Icc 0.01 0.99)) :
    ∃ dew : DryBulb ℝ → Temperature ℝ,
      (∀ now d, (@dewPoint ℝ (.real log)).step now () d = .ok (dew d, ())) ∧
      ∀ d, -237.7 < d.temperature.celsius →
        237.7 + d.temperature.celsius ≠ 0 ∧
        17.27 - (warmth d.temperature.celsius + drought log d.humidity) ≠ 0 ∧
        (dew d).celsius = dewOf (warmth d.temperature.celsius + drought log d.humidity) ∧
        (dew d).kelvin < d.temperature.kelvin ∧
        ∀ d' : DryBulb ℝ,
          (d.temperature = d'.temperature → d.humidity ≤ d'.humidity →
            (dew d).kelvin ≤ (dew d').kelvin) ∧
          (d.humidity = d'.humidity → d.temperature.kelvin < d'.temperature.kelvin →
            (dew d).kelvin < (dew d').kelvin) := by
  refine ⟨fun d => .ofCelsius (@dewPointCelsius ℝ (.real log) d.temperature.celsius d.humidity),
    ?_, ?_⟩
  · intro now d
    simp only [dewPoint, Block.memoryless, reading_real]
    rfl
  · simp only [dewPointCelsius_eq]
    rintro ⟨T, phi⟩ (ht : -237.7 < T.celsius)
    have below (t phi : ℝ) (ht : -237.7 < t) : warmth t + drought log phi < 17.27 :=
      (exponent_lt hneg t phi).trans (warmth_lt ht)
    refine ⟨(neg_lt_iff_pos_add'.1 ht).ne', (sub_pos.2 (below _ _ ht)).ne',
      Temperature.celsius_ofCelsius _, ?_, ?_⟩
    · rw [Temperature.kelvin_lt_iff, Temperature.celsius_ofCelsius]
      calc dewOf (warmth T.celsius + drought log phi)
          < dewOf (warmth T.celsius) :=
            strictMonoOn_dewOf (below _ _ ht) (warmth_lt ht) (exponent_lt hneg _ _)
        _ = T.celsius := dewOf_warmth ht
    · rintro ⟨T', phi'⟩
      refine ⟨?_, ?_⟩
      · rintro (rfl : T = T') (h : phi ≤ phi')
        rw [Temperature.kelvin_le_iff, Temperature.celsius_ofCelsius,
          Temperature.celsius_ofCelsius]
        exact strictMonoOn_dewOf.monotoneOn (below _ _ ht) (below _ _ ht)
          (add_le_add_right (drought_mono hmono h) _)
      · rintro (rfl : phi = phi') (h : T.kelvin < T'.kelvin)
        rw [Temperature.kelvin_lt_iff] at h
        have ht' := ht.trans h
        rw [Temperature.kelvin_lt_iff, Temperature.celsius_ofCelsius,
          Temperature.celsius_ofCelsius]
        exact strictMonoOn_dewOf (below _ _ ht) (below _ _ ht')
          (add_lt_add_left (strictMonoOn_warmth ht ht' h) _)

/-- With the natural logarithm: at twenty degrees, air that is given as more than saturated has a
dew point below twenty degrees, and one that is no lower than that of drier air. -/
theorem below_dry_bulb_saturated :
    ∃ dew : DryBulb ℝ → Temperature ℝ,
      (∀ now d, (@dewPoint ℝ (.real Real.log)).step now () d = .ok (dew d, ())) ∧
      (dew ⟨.ofCelsius 20, 3 / 2⟩).kelvin < (Temperature.ofCelsius (20 : ℝ)).kelvin ∧
      (dew ⟨.ofCelsius 20, 1 / 2⟩).kelvin ≤ (dew ⟨.ofCelsius 20, 3 / 2⟩).kelvin ∧
      (dew ⟨.ofCelsius 20, 3 / 2⟩).kelvin < (dew ⟨.ofCelsius 30, 3 / 2⟩).kelvin := by
  have neg : ∀ x ∈ Icc (0.01 : ℝ) 0.99, Real.log x < 0 := by
    rintro x ⟨hlow, hhigh⟩
    exact Real.log_neg (by linarith) (by linarith)
  have mono : MonotoneOn Real.log (Icc 0.01 0.99) := by
    refine Real.strictMonoOn_log.monotoneOn.mono fun x hx => ?_
    have := hx.1
    exact lt_of_lt_of_le (by norm_num) this
  obtain ⟨dew, steps, laws⟩ := below_dry_bulb neg mono
  have above (c : ℝ) (hc : 0 ≤ c) : -237.7 < (Temperature.ofCelsius c).celsius := by
    rw [Temperature.celsius_ofCelsius]
    linarith
  obtain ⟨-, -, -, below, warmer⟩ := laws ⟨.ofCelsius 20, 3 / 2⟩ (above 20 (by norm_num))
  obtain ⟨-, -, -, -, moister⟩ := laws ⟨.ofCelsius 20, 1 / 2⟩ (above 20 (by norm_num))
  refine ⟨dew, steps, below, (moister ⟨_, _⟩).1 rfl ?_, (warmer ⟨_, _⟩).2 rfl ?_⟩
  · show (1 / 2 : ℝ) ≤ 3 / 2
    norm_num
  · rw [Temperature.kelvin_lt_iff, Temperature.celsius_ofCelsius, Temperature.celsius_ofCelsius]
    norm_num

end ControlBlocks.MoistAir

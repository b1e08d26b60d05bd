import ControlBlocks.Block.Basic

/-!
# Moist air

Properties of moist air from its dry-bulb temperature and relative humidity, in SI units.

* `MoistAir.Temperature` — kelvin, with conversions to and from degrees Celsius;
* `MoistAir.saturationPressure` — the pressure of saturated vapor over water;
* `MoistAir.dewPoint`, `specificEnthalpy`, `wetBulb` — the blocks.

Relative humidity is a fraction; every block clamps it to the range of its formula.
-/

set_option autoImplicit false

namespace ControlBlocks.MoistAir

/-- A thermodynamic temperature. -/
structure Temperature (α : Type) where
  kelvin : α
  deriving DecidableEq, Repr

section Units

variable {α : Type} [Scalar α]

/-- The temperature of a reading in degrees Celsius. -/
def Temperature.ofCelsius (c : α) : Temperature α := ⟨c + 273.15⟩

/-- The reading in degrees Celsius. -/
def Temperature.celsius (t : Temperature α) : α := t.kelvin - 273.15

/-- The standard atmosphere in pascal. -/
def standardPressure : α := 101325.0

instance : ToDatum α (Temperature α) where
  toDatum t := .record [("c", toDatum t.celsius), ("k", toDatum t.kelvin)]

/-- Dry-bulb temperature and relative humidity. -/
structure DryBulb (α : Type) where
  temperature : Temperature α
  humidity : α

/-- The temperature is given in degrees Celsius (`t_c`) or in kelvin (`t_k`). -/
instance : OfDatum α (DryBulb α) where
  ofDatum? d := do
    let humidity ← required (d.get? "phi")
    match d.get? "t_c" with
    | some c => return ⟨.ofCelsius (← ofDatum? c), humidity⟩
    | none => return ⟨⟨← required (d.get? "t_k")⟩, humidity⟩

/-- Degrees Celsius and humidity, both of which have to be finite. -/
def DryBulb.reading (d : DryBulb α) : Except (Fault α) (α × α) := do
  let celsius ← requireFinite d.temperature.celsius "TDryBul"
  let humidity ← requireFinite d.humidity "phi"
  return (celsius, humidity)

end Units

variable {α : Type} [Elementary α]

/-- The pressure of saturated water vapor in pascal, after Antoine. -/
def saturationPressure (celsius : α) : α :=
  Elementary.pow 10.0 (8.07131 - 1730.63 / (233.426 + celsius)) * 133.322

/-- The dew point in degrees Celsius, after Magnus and Tetens. -/
def dewPointCelsius (celsius humidity : α) : α :=
  let humidity := Scalar.clamp 0.01 0.99 humidity
  let gamma := 17.27 * celsius / (237.7 + celsius) + Elementary.log humidity
  237.7 * gamma / (17.27 - gamma)

/-- The temperature at which the vapor in the air condenses. -/
def dewPoint : Block α (DryBulb α) Unit (Temperature α) :=
  .memoryless "DewPoint" fun d => do
    let (celsius, humidity) ← d.reading
    return .ofCelsius (dewPointCelsius celsius humidity)

/-- The enthalpy of moist air in joule for each kilogram of dry air, relative to dry air at zero
degrees.  Vapor needs a pressure below that of the air around it. -/
def enthalpy (pressure : α) (d : DryBulb α) : Except (Fault α) α := do
  let (celsius, humidity) ← d.reading
  let vapor := Scalar.clamp 0 1 humidity * saturationPressure celsius
  if pressure ≤ vapor then
    .error (.domain "SpecificEnthalpy" "vapor pressure exceeds ambient pressure" vapor)
  else
    let ratio := 0.622 * vapor / (pressure - vapor)
    return 1006.0 * celsius + ratio * (2501000.0 + 1860.0 * celsius)

/-- Specific enthalpy at an ambient pressure. -/
def specificEnthalpy (pressure : α) : Except (Fault α) (Block α (DryBulb α) Unit α) :=
  (requirePositive pressure "SpecificEnthalpy" "p_atm must be > 0").map fun pressure =>
    .memoryless "SpecificEnthalpy" (enthalpy pressure)

/-- The wet-bulb temperature in degrees Celsius, after Stull; the humidity is in percent. -/
def wetBulbCelsius (celsius percent : α) : α :=
  celsius * Elementary.atan (0.151977 * Elementary.sqrt (percent + 8.313659))
    + Elementary.atan (celsius + percent)
    - Elementary.atan (percent - 1.676331)
    + 0.00391838 * Elementary.pow percent 1.5 * Elementary.atan (0.023101 * percent)
    - 4.686035

/-- The wet bulb, never above the dry bulb.  The formula does not use the ambient pressure, which
has to be positive all the same. -/
def wetBulb (pressure : α) : Except (Fault α) (Block α (DryBulb α) Unit (Temperature α)) :=
  (requirePositive pressure "WetBulb" "p_atm must be > 0").map fun _ =>
    .memoryless "WetBulb" fun d => do
      let (celsius, humidity) ← d.reading
      let percent := Scalar.clamp 0.01 1.0 humidity * 100.0
      let wet := Temperature.ofCelsius (wetBulbCelsius celsius percent)
      return if d.temperature.kelvin < wet.kelvin then d.temperature else wet

end ControlBlocks.MoistAir

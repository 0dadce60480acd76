import Mensura.Dimension.Derived
import Mensura.Registry

/-!
# The standard registry

The SI base units (mass in grams), the named derived units, and the units of time and mass that
are no power of ten of them.
-/

set_option autoImplicit false

namespace Mensura
namespace Registry

variable {α : Type} [Scalar α]

/-- `m · 10 ^ e` of a base unit; a number that cannot scale anything counts as one. -/
def scaled (dim : Dimension) (e : Int) (m : α) : PhysUnit α :=
  if h : Scalar.isFactor m = true then ⟨dim, e, m, h⟩ else PhysUnit.decimal dim e

/-- The units by symbol.  Whatever contains mass is a thousand times what grams would give. -/
def standardUnits : List (String × PhysUnit α) := [
  ("m", .decimal (.base .length) 0),
  ("g", .decimal (.base .mass) 0),
  ("s", .decimal (.base .time) 0),
  ("A", .decimal (.base .current) 0),
  ("K", .decimal (.base .temperature) 0),
  ("mol", .decimal (.base .amount) 0),
  ("cd", .decimal (.base .luminosity) 0),
  ("rad", .decimal 1 0),
  ("sr", .decimal 1 0),
  ("Hz", .decimal .frequency 0),
  ("Bq", .decimal .frequency 0),
  ("N", .decimal .force 3),
  ("J", .decimal .energy 3),
  ("Pa", .decimal .pressure 3),
  ("W", .decimal .power 3),
  ("C", .decimal .charge 0),
  ("V", .decimal .voltage 3),
  ("F", .decimal .capacitance (-3)),
  ("Ω", .decimal .resistance 3),
  ("S", .decimal .conductance (-3)),
  ("Wb", .decimal .flux 3),
  ("T", .decimal .fluxDensity 3),
  ("H", .decimal .inductance 3),
  ("lm", .decimal (.base .luminosity) 0),
  ("lx", .decimal .illuminance 0),
  ("Gy", .decimal .dose 0),
  ("Sv", .decimal .dose 0),
  ("kat", .decimal .catalyticActivity 0),
  ("L", .decimal .volume (-3)),
  ("min", scaled (.base .time) 1 (Scalar.ofDecimal 6 0)),
  ("h", scaled (.base .time) 3 (Scalar.ofDecimal 36 (-1))),
  ("d", scaled (.base .time) 4 (Scalar.ofDecimal 864 (-2))),
  ("wk", scaled (.base .time) 5 (Scalar.ofDecimal 6048 (-3))),
  ("yr", scaled (.base .time) 7 (Scalar.ofDecimal 31556952 (-7))),
  ("amu", scaled (.base .mass) (-24) (Scalar.ofDecimal 16605390666 (-10)))]

/-- Further names of the units. -/
def standardNames : List (String × String) := [
  ("meter", "m"), ("meters", "m"), ("metre", "m"), ("metres", "m"),
  ("gram", "g"), ("grams", "g"), ("gm", "g"),
  ("sec", "s"), ("second", "s"), ("seconds", "s"),
  ("amp", "A"), ("amps", "A"), ("ampere", "A"), ("amperes", "A"),
  ("kelvin", "K"),
  ("mole", "mol"), ("moles", "mol"), ("mols", "mol"),
  ("candela", "cd"),
  ("hertz", "Hz"),
  ("becquerel", "Bq"),
  ("newton", "N"), ("newtons", "N"),
  ("joule", "J"), ("joules", "J"),
  ("pascal", "Pa"), ("pascals", "Pa"),
  ("watt", "W"), ("watts", "W"),
  ("coulomb", "C"), ("coulombs", "C"),
  ("volt", "V"), ("volts", "V"),
  ("farad", "F"), ("farads", "F"),
  ("ohm", "Ω"), ("ohms", "Ω"), ("Ohm", "Ω"),
  ("siemens", "S"),
  ("weber", "Wb"), ("webers", "Wb"),
  ("tesla", "T"), ("teslas", "T"),
  ("henry", "H"), ("henries", "H"), ("henrys", "H"),
  ("lumen", "lm"), ("lumens", "lm"),
  ("lux", "lx"),
  ("gray", "Gy"), ("grays", "Gy"),
  ("sievert", "Sv"), ("sieverts", "Sv"),
  ("katal", "kat"), ("katals", "kat"),
  ("l", "L"), ("liter", "L"), ("liters", "L"), ("litre", "L"), ("litres", "L"),
  ("radian", "rad"), ("radians", "rad"),
  ("steradian", "sr"), ("steradians", "sr"),
  ("minute", "min"), ("minutes", "min"),
  ("hr", "h"), ("hour", "h"), ("hours", "h"),
  ("day", "d"), ("days", "d"),
  ("week", "wk"), ("weeks", "wk"),
  ("year", "yr"), ("years", "yr"),
  ("u", "amu"), ("Da", "amu"), ("dalton", "amu"), ("daltons", "amu")]

/-- The units that take no prefix: a kilohour is not in use. -/
def unprefixedUnits : List String :=
  ["min", "h", "d", "wk", "yr", "amu"]

/-- The names among `standardNames` of units without a prefix. -/
def unprefixedNames : List String :=
  (standardNames.filter fun n ↦ unprefixedUnits.contains n.2).map Prod.fst

/-- The registry that texts are read with unless another is given. -/
def standard : Registry α :=
  ⟨standardUnits, standardNames, unprefixedUnits ++ unprefixedNames⟩

end Registry
end Mensura

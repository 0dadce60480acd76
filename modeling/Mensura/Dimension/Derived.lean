import Mensura.Dimension

/-!
# Derived dimensions

The dimensions that named units measure, each built from those before it.
-/

set_option autoImplicit false

namespace Mensura
namespace Dimension

/-- Events per time. -/
def frequency : Dimension := 1 / base .time

/-- Length by length. -/
def area : Dimension := base .length * base .length

/-- Area by length. -/
def volume : Dimension := area * base .length

/-- Mass times acceleration. -/
def force : Dimension := base .mass * base .length / (base .time * base .time)

/-- Force on an area. -/
def pressure : Dimension := force / area

/-- Force along a length. -/
def energy : Dimension := force * base .length

/-- Energy per time. -/
def power : Dimension := energy / base .time

/-- Current over time. -/
def charge : Dimension := base .current * base .time

/-- Power per current. -/
def voltage : Dimension := power / base .current

/-- Charge per voltage. -/
def capacitance : Dimension := charge / voltage

/-- Voltage per current. -/
def resistance : Dimension := voltage / base .current

/-- Current per voltage. -/
def conductance : Dimension := base .current / voltage

/-- Magnetic flux: voltage over time. -/
def flux : Dimension := voltage * base .time

/-- Magnetic flux through an area. -/
def fluxDensity : Dimension := flux / area

/-- Magnetic flux per current. -/
def inductance : Dimension := flux / base .current

/-- Luminous flux on an area. -/
def illuminance : Dimension := base .luminosity / area

/-- Energy absorbed by a mass. -/
def dose : Dimension := energy / base .mass

/-- Amount converted per time. -/
def catalyticActivity : Dimension := base .amount / base .time

end Dimension
end Mensura

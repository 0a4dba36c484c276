/-
The exact value of a binary64 number.

A finite number is a sign and a natural significand times a power of two.  The
reals that round to it form an interval around it; `Binary.standsFor` decides
whether a decimal lies in that interval, by comparing products of natural
numbers only.
-/

namespace RecordFilter
namespace Decimal

/-- A number `coefficient × 10 ^ power`. -/
structure Scaled where
  coefficient : Nat
  power : Int
deriving DecidableEq, Repr

/-- The size of a finite binary64 number, `significand × 2 ^ power`. -/
structure Binary where
  significand : Nat
  power : Int
  narrowBelow : Bool
deriving DecidableEq, Repr

inductive Parts where
  | notANumber
  | infinite (negative : Bool)
  | finite (negative : Bool) (size : Binary)
deriving DecidableEq, Repr

/-- The parts of a binary64 number, read from its 64 bits: one for the sign,
eleven for the exponent and fifty-two for the fraction. -/
def Parts.ofFloat (x : Float) : Parts :=
  let bits : Nat := x.toBits.toNat
  let negative : Bool := bits / 0x8000000000000000 = 1
  let exponent : Nat := bits / 0x10000000000000 % 0x800
  let fraction : Nat := bits % 0x10000000000000
  if exponent = 0x7FF then
    if fraction = 0 then .infinite negative else .notANumber
  else if exponent = 0 then
    .finite negative ⟨fraction, -1074, false⟩
  else
    .finite negative ⟨0x10000000000000 + fraction, (exponent : Int) - 1075, fraction = 0 && 1 < exponent⟩

def raised (n base : Nat) (power : Int) : Nat := n * Nat.pow base power.toNat

/-- The order of a decimal and `n × 2 ^ power`, by cross-multiplication. -/
def Scaled.compareBinary (d : Scaled) (n : Nat) (power : Int) : Ordering :=
  compare (raised (raised d.coefficient 10 d.power) 2 (-power))
    (raised (raised n 2 power) 10 (-d.power))

/-- A decimal stands for a binary number when it lies between the midpoints to
its two neighbours; the midpoints count exactly when the significand is even. -/
def Binary.standsFor (x : Binary) (d : Scaled) : Bool :=
  let low := if x.narrowBelow then 4 * x.significand - 1 else 4 * x.significand - 2
  let high := 4 * x.significand + 2
  let ends : Bool := x.significand % 2 = 0
  let fromLow := d.compareBinary low (x.power - 2)
  let fromHigh := d.compareBinary high (x.power - 2)
  (fromLow == .gt || (ends && fromLow == .eq)) &&
    (fromHigh == .lt || (ends && fromHigh == .eq))

/-- The largest multiple of `10 ^ power` that is not above a binary number, as
its coefficient. -/
def Binary.floorAt (x : Binary) (power : Int) : Nat :=
  raised (raised x.significand 2 x.power) 10 (-power) / raised (raised 1 10 power) 2 (-x.power)

/-- The decimal exponent of the leading digit of a non-zero binary number.
Scaling by `10 ^ shift` leaves a value of at least one, whose integral part is
counted. -/
def Binary.leadingPower (x : Binary) : Int :=
  let shift := (-x.power).toNat
  ((Nat.toDigits 10 (x.floorAt (-(shift : Int)))).length : Int) - 1 - shift

end Decimal
end RecordFilter

/-
The shortest decimal that stands for a binary64 number.

For one digit, two digits and so on the search takes the decimal grid with that
many digits and looks at the two neighbours of the number on it.  The first
grid with a hit wins, of two hits the nearer one, and an exact tie is decided
by the caller's rule.
-/
import RecordFilter.Decimal.Binary

namespace RecordFilter
namespace Decimal

/-- Which of two equally near decimals is taken. -/
inductive Tie where
  | even
  | up
deriving DecidableEq, Repr

/-- The nearer of the two neighbours `floor` and `floor + 1` on one grid. -/
def Binary.nearer (x : Binary) (tie : Tie) (floor : Nat) (power : Int) : Nat :=
  match (Scaled.mk (2 * floor + 1) power).compareBinary (2 * x.significand) x.power with
  | .gt => floor
  | .lt => floor + 1
  | .eq =>
      match tie with
      | .up => floor + 1
      | .even => if floor % 2 = 0 then floor else floor + 1

/-- The neighbour on the grid of multiples of `10 ^ power` that stands for the
number, if there is one. -/
def Binary.hitAt? (x : Binary) (tie : Tie) (power : Int) : Option Scaled :=
  let floor := x.floorAt power
  match x.standsFor ⟨floor, power⟩, x.standsFor ⟨floor + 1, power⟩ with
  | true, true => some ⟨x.nearer tie floor power, power⟩
  | true, false => some ⟨floor, power⟩
  | false, true => some ⟨floor + 1, power⟩
  | false, false => none

def Binary.exact (x : Binary) : Scaled :=
  ⟨raised (raised x.significand 2 x.power) 5 (-x.power), min x.power 0⟩

/-- The first hit on the grids from `power` downwards. -/
def Binary.search (x : Binary) (tie : Tie) : Nat → Int → Scaled
  | 0, _ => x.exact
  | grids + 1, power =>
      match x.hitAt? tie power with
      | some hit => hit
      | none => x.search tie grids (power - 1)

def dropTrailingZeros : List Char → Int → List Char × Int
  | [], power => ([], power)
  | c :: cs, power =>
      if c = '0' then dropTrailingZeros cs (power + 1) else (c :: cs, power)

/-- Decimal digits without a trailing zero, and the exponent of the first. -/
structure Digits where
  digits : List Char
  leading : Int
deriving DecidableEq, Repr

def Digits.ofScaled (d : Scaled) : Digits :=
  let written := Nat.toDigits 10 d.coefficient
  match dropTrailingZeros written.reverse d.power with
  | ([], _) => ⟨['0'], 0⟩
  | (c :: cs, power) => ⟨(c :: cs).reverse, (cs.length : Int) + power⟩

/-- The fewest digits that stand for a binary number.  Seventeen digits are
enough for every binary64 number, and zero is written with one. -/
def Binary.shortest (x : Binary) (tie : Tie) : Digits :=
  if x.significand = 0 then ⟨['0'], 0⟩
  else Digits.ofScaled (x.search tie 17 x.leadingPower)

end Decimal
end RecordFilter

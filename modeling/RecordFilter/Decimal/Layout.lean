/-
How a binary64 number is written.

The digits are always the fewest that read back; a `Layout` holds what remains
to be decided: where positional notation is used, whether a whole number keeps
a point, how ties between digits go, and the words for what is not finite.
-/
import RecordFilter.Decimal.Shortest

namespace RecordFilter
namespace Decimal

structure Layout where
  tie : Tie
  /-- The exponents of the leading digit that are written without exponent,
  ends included; every exponent when there is no range. -/
  positional : Option (Int × Int)
  keepsPoint : Bool
  notANumber : List Char
  infinite : List Char
  negativeInfinite : List Char

def Layout.isPositional (layout : Layout) (leading : Int) : Bool :=
  match layout.positional with
  | none => true
  | some (low, high) => low ≤ leading && leading ≤ high

def Digits.positional (d : Digits) (keepsPoint : Bool) : List Char :=
  if d.leading < 0 then
    ['0', '.'] ++ List.replicate ((-d.leading).toNat - 1) '0' ++ d.digits
  else
    let whole := d.leading.toNat + 1
    if d.digits.length ≤ whole then
      d.digits ++ List.replicate (whole - d.digits.length) '0' ++
        (if keepsPoint then ['.', '0'] else [])
    else
      d.digits.take whole ++ '.' :: d.digits.drop whole

/-- Digits in exponent notation: one digit before the point, no point when it is
the only one, and an exponent that always has a sign. -/
def Digits.scientific (d : Digits) : List Char :=
  let mantissa :=
    match d.digits with
    | first :: next :: more => first :: '.' :: next :: more
    | short => short
  let sign := if d.leading < 0 then '-' else '+'
  mantissa ++ 'e' :: sign :: Nat.toDigits 10 d.leading.natAbs

def Layout.writeDigits (layout : Layout) (d : Digits) : List Char :=
  if layout.isPositional d.leading then d.positional layout.keepsPoint else d.scientific

def writeInteger (n : Int) : List Char :=
  (if n < 0 then ['-'] else []) ++ Nat.toDigits 10 n.natAbs

/-- A number in a layout; the sign of zero is kept. -/
def Layout.write (layout : Layout) (x : Float) : List Char :=
  match Parts.ofFloat x with
  | .notANumber => layout.notANumber
  | .infinite negative => if negative then layout.negativeInfinite else layout.infinite
  | .finite negative size =>
      (if negative then ['-'] else []) ++ layout.writeDigits (size.shortest layout.tie)

/-- Numbers as plain text: always positional, whole numbers without a point, ties
to the larger digit. -/
def plainLayout : Layout where
  tie := .up
  positional := none
  keepsPoint := false
  notANumber := "NaN".toList
  infinite := "inf".toList
  negativeInfinite := "-inf".toList

end Decimal
end RecordFilter

/-
Numbers written as text.

An integer literal is an optional sign and digits, within 128 bits.  A decimal
literal is an optional sign and either a word for a special value, in any case,
or digits with at most one point, at least one digit, and an optional exponent.
The nearest binary64 number is taken, an even significand on a tie, and a value
beyond the largest number is infinite.
-/

namespace RecordFilter
namespace Decimal

/-! ### Digits -/

def digitValue (c : Char) : Nat := c.toNat - '0'.toNat

/-- The natural number that a list of digits denotes, after `high`. -/
def digitsValue (high : Nat) (digits : List Char) : Nat :=
  digits.foldl (fun value c => 10 * value + digitValue c) high

def spanDigits (text : List Char) : List Char × List Char :=
  (text.takeWhile Char.isDigit, text.dropWhile Char.isDigit)

theorem spanDigits_append (text : List Char) :
    (spanDigits text).1 ++ (spanDigits text).2 = text :=
  List.takeWhile_append_dropWhile

theorem spanDigits_length (text : List Char) :
    (spanDigits text).2.length ≤ text.length := by
  have hAppend := congrArg List.length (spanDigits_append text)
  simp only [List.length_append] at hAppend
  omega

def spanSign : List Char → Bool × List Char
  | '-' :: rest => (true, rest)
  | '+' :: rest => (false, rest)
  | text => (false, text)

theorem spanSign_length (text : List Char) : (spanSign text).2.length ≤ text.length := by
  unfold spanSign
  split <;> simp

/-! ### Integers -/

def readInteger? (text : List Char) : Option Int :=
  let (negative, digits) := spanSign text
  if digits.isEmpty || !digits.all Char.isDigit then none
  else
    let size : Int := digitsValue 0 digits
    some (if negative then -size else size)

def readInteger128? (text : List Char) : Option Int :=
  match readInteger? text with
  | some n => if -0x80000000000000000000000000000000 ≤ n && n < 0x80000000000000000000000000000000 then some n else none
  | none => none

/-! ### Decimals -/

def infinity : Float := Float.ofBits 0x7FF0000000000000

/-- The binary64 number nearest to `coefficient × 10 ^ power`.  Sizes far
outside the range are settled by the position of the leading digit, so that no
huge power is computed. -/
def nearest (coefficient : Nat) (power : Int) : Float :=
  let leading := (Nat.toDigits 10 coefficient).length + power
  if coefficient = 0 || leading < -330 then 0.0
  else if 310 < leading then infinity
  else Float.ofScientific coefficient (power < 0) power.natAbs

/-- An exponent: nothing, or the letter `e` in either case, an optional sign and
at least one digit. -/
def readExponent? : List Char → Option Int
  | [] => some 0
  | mark :: text =>
      if mark = 'e' || mark = 'E' then
        let (negative, digits) := spanSign text
        if digits.isEmpty || !digits.all Char.isDigit then none
        else
          let size : Int := digitsValue 0 digits
          some (if negative then -size else size)
      else none

def readUnsigned? (text : List Char) : Option Float :=
  let (whole, afterWhole) := spanDigits text
  let (fraction, rest) :=
    match afterWhole with
    | '.' :: afterPoint => spanDigits afterPoint
    | other => ([], other)
  if whole.isEmpty && fraction.isEmpty then none
  else
    match readExponent? rest with
    | none => none
    | some exponent =>
        some (nearest (digitsValue 0 (whole ++ fraction)) (exponent - fraction.length))

def readSpecial? (text : List Char) : Option Float :=
  let word := text.map Char.toLower
  if word = "nan".toList then some (Float.ofBits 0x7FF8000000000000)
  else if word = "inf".toList || word = "infinity".toList then some infinity
  else none

def readFloat? (text : List Char) : Option Float :=
  let (negative, size) := spanSign text
  let value :=
    match readSpecial? size with
    | some x => some x
    | none => readUnsigned? size
  value.map fun x => if negative then -x else x

end Decimal
end RecordFilter

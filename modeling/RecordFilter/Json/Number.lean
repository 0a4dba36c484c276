/-
JSON numbers in text.

A number without fraction and exponent is an integer when it fits 64 bits,
signed or unsigned.  Every other number is scaled in floating arithmetic: as
many leading digits as fit 64 bits, times or divided by a power of ten.  Digits
beyond them are not looked at, a result beyond the largest number is refused,
and the negative zero is floating.
-/
import RecordFilter.Decimal.Literal
import RecordFilter.Json.Value

namespace RecordFilter
namespace Json

/-- The digits read into a significand of 64 bits, and the digits left over from
the first one that does not fit. -/
def absorbDigits (significand : Nat) : List Char → Nat × List Char
  | [] => (significand, [])
  | c :: cs =>
      if 10 * significand + Decimal.digitValue c < 0x10000000000000000 then
        absorbDigits (10 * significand + Decimal.digitValue c) cs
      else (significand, c :: cs)

/-- A power of ten up to `10 ^ 308`. -/
def powerOfTen (exponent : Nat) : Float := Float.ofScientific 1 false exponent

/-- `x × 10 ^ power` in floating arithmetic.  A power below `-308` is taken in
steps, which end when the value is zero; a power above `308` has no result
unless the value is zero. -/
def scale? : Nat → Float → Int → Option Float
  | 0, x, _ => some x
  | steps + 1, x, power =>
      if power.natAbs ≤ 308 then
        if power < 0 then some (x / powerOfTen power.natAbs)
        else some (x * powerOfTen power.natAbs)
      else if x == 0.0 then some x
      else if 0 ≤ power then none
      else scale? steps (x / powerOfTen 308) (power + 308)

/-- The floating number with the given sign, digits before and after the point,
and exponent.  Eight steps of scaling reach zero from any significand. -/
def floatOfDigits? (negative : Bool) (whole fraction : List Char) (exponent : Int) :
    Option Value :=
  let high := absorbDigits 0 whole
  let low := absorbDigits high.1 fraction
  let taken := fraction.length - low.2.length
  (scale? 8 (Float.ofNat low.1) (exponent + high.2.length - taken)).bind fun size =>
    (Finite.ofFloat? (if negative then -size else size)).map .float

def integerOfDigits? (negative : Bool) (whole : List Char) : Option Value :=
  let size : Int := Decimal.digitsValue 0 whole
  let value := if negative then -size else size
  if negative && size = 0 then floatOfDigits? negative whole [] 0
  else
    match Whole.ofInt? value with
    | some n => some (.integer n)
    | none => floatOfDigits? negative whole [] 0

/-- The number made of its parts: an integer if there is neither a fraction nor an
exponent. -/
def numberOfParts? (negative : Bool) (whole : List Char) :
    Option (List Char) → Option Int → Option Value
  | none, none => integerOfDigits? negative whole
  | fraction, power =>
      floatOfDigits? negative whole (fraction.getD []) (power.getD 0)

/-! ### The parts of a number -/

def spanMinus : List Char → Bool × List Char
  | '-' :: rest => (true, rest)
  | text => (false, text)

def readFraction? : List Char → Option (Option (List Char) × List Char)
  | '.' :: text =>
      if (Decimal.spanDigits text).1.isEmpty then none
      else some (some (Decimal.spanDigits text).1, (Decimal.spanDigits text).2)
  | text => some (none, text)

def readPowerDigits? (text : List Char) : Option (Option Int × List Char) :=
  let sign := Decimal.spanSign text
  let span := Decimal.spanDigits sign.2
  if span.1.isEmpty then none
  else
    let size : Int := Decimal.digitsValue 0 span.1
    some (some (if sign.1 then -size else size), span.2)

/-- The exponent of a number, if the letter `e` in either case announces one. -/
def readPower? : List Char → Option (Option Int × List Char)
  | 'e' :: text => readPowerDigits? text
  | 'E' :: text => readPowerDigits? text
  | text => some (none, text)

/-- Digits before the point: at least one, and no zero in front of others. -/
def wellFormedWhole : List Char → Bool
  | [] => false
  | [_] => true
  | first :: _ => first != '0'

def readNumber? (text : List Char) : Option (Value × List Char) :=
  let sign := spanMinus text
  let whole := Decimal.spanDigits sign.2
  if wellFormedWhole whole.1 then
    (readFraction? whole.2).bind fun fraction =>
      (readPower? fraction.2).bind fun power =>
        (numberOfParts? sign.1 whole.1 fraction.1 power.1).map fun value => (value, power.2)
  else none

/-! ### What follows a number is shorter -/

theorem spanMinus_length (text : List Char) : (spanMinus text).2.length ≤ text.length := by
  unfold spanMinus
  split <;> simp

theorem readFraction?_length {text : List Char} {found : Option (List Char) × List Char}
    (hRead : readFraction? text = some found) : found.2.length ≤ text.length := by
  unfold readFraction? at hRead
  split at hRead
  · rename_i afterPoint
    have hSpan := Decimal.spanDigits_length afterPoint
    split at hRead
    · cases hRead
    · cases hRead
      simp only [List.length_cons]
      omega
  · cases hRead
    exact Nat.le_refl _

theorem readPowerDigits?_length {text : List Char} {found : Option Int × List Char}
    (hRead : readPowerDigits? text = some found) : found.2.length ≤ text.length := by
  have hSign := Decimal.spanSign_length text
  have hSpan := Decimal.spanDigits_length (Decimal.spanSign text).2
  simp only [readPowerDigits?] at hRead
  split at hRead
  · cases hRead
  · cases hRead
    exact Nat.le_trans hSpan hSign

theorem readPower?_length {text : List Char} {found : Option Int × List Char}
    (hRead : readPower? text = some found) : found.2.length ≤ text.length := by
  unfold readPower? at hRead
  split at hRead
  · exact Nat.le_succ_of_le (readPowerDigits?_length hRead)
  · exact Nat.le_succ_of_le (readPowerDigits?_length hRead)
  · cases hRead
    exact Nat.le_refl _

theorem spanDigits_length_of_wellFormedWhole {text : List Char}
    (hWhole : wellFormedWhole (Decimal.spanDigits text).1 = true) :
    (Decimal.spanDigits text).2.length < text.length := by
  have hAppend := congrArg List.length (Decimal.spanDigits_append text)
  cases hFirst : (Decimal.spanDigits text).1 with
  | nil =>
      rw [hFirst] at hWhole
      cases hWhole
  | cons c cs =>
      rw [hFirst] at hAppend
      simp only [List.length_append, List.length_cons] at hAppend
      omega

theorem readNumber?_length {text : List Char} {found : Value × List Char}
    (hRead : readNumber? text = some found) : found.2.length < text.length := by
  simp only [readNumber?] at hRead
  split at hRead
  · rename_i hWhole
    obtain ⟨fraction, hFraction, hRead⟩ := Option.bind_eq_some_iff.1 hRead
    obtain ⟨power, hPower, hRead⟩ := Option.bind_eq_some_iff.1 hRead
    obtain ⟨value, -, hPair⟩ := Option.map_eq_some_iff.1 hRead
    have hMinus := spanMinus_length text
    have hDigits := spanDigits_length_of_wellFormedWhole hWhole
    have hAfterFraction := readFraction?_length hFraction
    have hAfterPower := readPower?_length hPower
    cases hPair
    simp only
    omega
  · cases hRead

end Json
end RecordFilter

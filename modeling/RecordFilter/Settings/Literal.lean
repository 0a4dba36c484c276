/-
What settings documents of all kinds have in common: blanks, digits in any base,
whole numbers of 64 signed bits, and characters named by a code.
-/
import RecordFilter.Decimal.Literal
import RecordFilter.Json.Token

namespace RecordFilter
namespace Settings

def isBlank (c : Char) : Bool := c = ' ' || c = '\t'

def digitIn? (base : Nat) (c : Char) : Option Nat :=
  match Json.hexValue? c with
  | some digit => if digit < base then some digit else none
  | none => none

/-- The number that digits denote in a base, after `high`; there is no number
when a character is no digit. -/
def digitsIn? (base high : Nat) : List Char → Option Nat
  | [] => some high
  | c :: rest =>
      match digitIn? base c with
      | some digit => digitsIn? base (base * high + digit) rest
      | none => none

def within64? (n : Int) : Option Int :=
  if -0x8000000000000000 ≤ n && n < 0x8000000000000000 then some n else none

def integerIn? (base : Nat) (text : List Char) : Option Int :=
  let (negative, digits) := Decimal.spanSign text
  if digits.isEmpty then none
  else
    match digitsIn? base 0 digits with
    | some size => within64? (if negative then -(size : Int) else size)
    | none => none

/-- The character with a code in hexadecimal digits, unless the code belongs to a
surrogate pair or is beyond the last one. -/
def codeChar? (digits : List Char) : Option Char :=
  match digitsIn? 16 0 digits with
  | some code => if code.isValidChar then some (Char.ofNat code) else none
  | none => none

end Settings
end RecordFilter

/-
Comparing record values with filter values.

Whole numbers are compared as integers, other numbers as floating numbers within
one unit of precision at one, truth values with their words, arrays item by
item, and everything else by its text.
-/
import RecordFilter.Decimal.Literal
import RecordFilter.Filter.Atom
import RecordFilter.Json.Printer
import RecordFilter.Text.Order
import RecordFilter.Text.Split

namespace RecordFilter
namespace Eval

open Json (Value)

/-! ### Readings of a value -/

/-- The text of a record value; a string is taken without quotes. -/
def text : Value → List Char
  | .text s => s.toList
  | other => other.write

def integer? : Value → Option Int
  | .integer n => some n.value
  | _ => none

def number? : Value → Option Float
  | .integer n => some (Float.ofInt n.value)
  | .float x => some x.value
  | _ => none

/-- The whole number that a filter value denotes; a text has to fit 128 bits. -/
def integerOfAtom? : Atom → Option Int
  | .integer n => some n.toInt
  | .text s => Decimal.readInteger128? s.toList
  | _ => none

def numberOfAtom? : Atom → Option Float
  | .integer n => some (Float.ofInt n.toInt)
  | .float x => some x
  | .text s => Decimal.readFloat? s.toList
  | _ => none

def truth? (word : String) : Option Bool :=
  if word = "true" then some true
  else if word = "false" then some false
  else none

/-! ### Equality -/

def epsilon : Float := Float.ofBits 0x3CB0000000000000

/-- Floating numbers are equal when their difference, rounded to a floating number, is less
than `epsilon`; NaN and the infinities are equal to nothing. -/
def close (x y : Float) : Bool := (x - y).abs < epsilon

mutual

def equals (actual : Value) (expected : Atom) : Bool :=
  match integer? actual, integerOfAtom? expected with
  | some m, some n => m == n
  | _, _ =>
      match actual, expected with
      | .integer n, expected =>
          match numberOfAtom? expected with
          | some y => close (Float.ofInt n.value) y
          | none => false
      | .float x, expected =>
          match numberOfAtom? expected with
          | some y => close x.value y
          | none => false
      | .bool b, .bool c => b == c
      | .bool b, .text s => truth? s == some b
      | .array items, .list atoms => equalItems items atoms
      | .text s, .text t => s == t
      | actual, expected => text actual == expected.write

def equalItems : List Value → List Atom → Bool
  | [], [] => true
  | item :: items, atom :: atoms => equals item atom && equalItems items atoms
  | _, _ => false

end

def equalsPiece (actual : Value) (pieces : String) : Bool :=
  (Text.split ',' pieces.toList).any fun piece => equals actual (.text (String.ofList piece))

/-! ### Order -/

/-- The order of two floating numbers; with NaN there is none. -/
def orderNumbers? (x y : Float) : Option Ordering :=
  if x < y then some .lt
  else if x == y then some .eq
  else if y < x then some .gt
  else none

def orderValues? (actual : Value) (expected : Atom) : Option Ordering :=
  match integer? actual, integerOfAtom? expected with
  | some m, some n => some (compare m n)
  | _, _ =>
      match number? actual, numberOfAtom? expected with
      | some x, some y => orderNumbers? x y
      | _, _ => some (Text.order (text actual) expected.write)

end Eval
end RecordFilter

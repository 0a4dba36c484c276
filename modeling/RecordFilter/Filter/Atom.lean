/-
The values that filters compare with.

A filter that comes from text holds texts only; the other kinds come from typed
trees.  Every kind has a text, which is what a rendered filter shows.
-/
import RecordFilter.Decimal.Layout

namespace RecordFilter

inductive Atom where
  | bool (b : Bool)
  | integer (n : Int64)
  | float (x : Float)
  | text (s : String)
  | list (items : List Atom)
deriving Inhabited, Repr

namespace Atom

mutual

/-- The text of a value; the items of a list are joined by commas, without
brackets. -/
def write : Atom → List Char
  | .bool true => ['t', 'r', 'u', 'e']
  | .bool false => ['f', 'a', 'l', 's', 'e']
  | .integer n => Decimal.writeInteger n.toInt
  | .float x => Decimal.plainLayout.write x
  | .text s => s.toList
  | .list items => writeItems items

def writeItems : List Atom → List Char
  | [] => []
  | [item] => item.write
  | item :: next :: items => item.write ++ ',' :: writeItems (next :: items)

end

def display (value : Atom) : String := String.ofList value.write

mutual

/-- Values of the same kind with the same content.  Floating numbers are compared
as numbers: the two zeros are the same, and NaN is not the same as itself. -/
def same : Atom → Atom → Bool
  | .bool a, .bool b => a == b
  | .integer m, .integer n => m == n
  | .float x, .float y => x == y
  | .text s, .text t => s == t
  | .list items, .list others => sameItems items others
  | _, _ => false

def sameItems : List Atom → List Atom → Bool
  | [], [] => true
  | item :: items, other :: others => same item other && sameItems items others
  | _, _ => false

end

end Atom
end RecordFilter

/-
The text of a JSON value.

The compact text has no blanks at all; the indented text puts each item and
each entry on a line of its own.  Characters outside ASCII are written as they
are, and control characters below the space are escaped, so no text of a value
holds a line break that is not written by the indentation.
-/
import RecordFilter.Decimal.Layout
import RecordFilter.Json.Value

namespace RecordFilter
namespace Json

/-! ### Numbers and strings -/

/-- JSON numbers: positional from five places after the point up to sixteen
digits before it, a whole number keeps its point, and ties go to the even
digit.  JSON has no numbers that are not finite; their word would be null. -/
def numberLayout : Decimal.Layout where
  tie := .even
  positional := some (-5, 15)
  keepsPoint := true
  notANumber := "null".toList
  infinite := "null".toList
  negativeInfinite := "null".toList

/-- The four hexadecimal digits of a code below `2 ^ 16`, in lower case. -/
def hexDigits (code : Nat) : List Char :=
  [code / 4096, code / 256, code / 16, code].map fun n => Nat.digitChar (n % 16)

def escape (c : Char) : List Char :=
  if c = '"' then ['\\', '"']
  else if c = '\\' then ['\\', '\\']
  else if c = '\x08' then ['\\', 'b']
  else if c = '\x0c' then ['\\', 'f']
  else if c = '\n' then ['\\', 'n']
  else if c = '\r' then ['\\', 'r']
  else if c = '\t' then ['\\', 't']
  else if c.toNat < 0x20 then '\\' :: 'u' :: hexDigits c.toNat
  else [c]

def quote (text : List Char) : List Char :=
  '"' :: text.flatMap escape ++ ['"']

/-! ### Compact text -/

mutual

def Value.write : Value → List Char
  | .null => ['n', 'u', 'l', 'l']
  | .bool true => ['t', 'r', 'u', 'e']
  | .bool false => ['f', 'a', 'l', 's', 'e']
  | .integer n => Decimal.writeInteger n.value
  | .float x => numberLayout.write x.value
  | .text s => quote s.toList
  | .array items => '[' :: writeItems items ++ [']']
  | .object entries => '\x7b' :: writeEntries entries ++ ['\x7d']

def writeItems : List Value → List Char
  | [] => []
  | [item] => item.write
  | item :: next :: items => item.write ++ ',' :: writeItems (next :: items)

def writeEntries : List (String × Value) → List Char
  | [] => []
  | [(key, value)] => quote key.toList ++ ':' :: value.write
  | (key, value) :: next :: entries =>
      quote key.toList ++ ':' :: value.write ++ ',' :: writeEntries (next :: entries)

end

def Value.compact (v : Value) : String := String.ofList v.write

/-! ### Indented text -/

def newLine (level : Nat) : List Char :=
  '\n' :: List.replicate (2 * level) ' '

mutual

def Value.writeIndented (level : Nat) : Value → List Char
  | .array [] => ['[', ']']
  | .array (item :: items) =>
      '[' :: indentItems (level + 1) (item :: items) ++ newLine level ++ [']']
  | .object [] => ['\x7b', '\x7d']
  | .object (entry :: entries) =>
      '\x7b' :: indentEntries (level + 1) (entry :: entries) ++ newLine level ++ ['\x7d']
  | .null => Value.null.write
  | .bool b => (Value.bool b).write
  | .integer n => (Value.integer n).write
  | .float x => (Value.float x).write
  | .text s => (Value.text s).write

def indentItems (level : Nat) : List Value → List Char
  | [] => []
  | [item] => newLine level ++ item.writeIndented level
  | item :: next :: items =>
      newLine level ++ item.writeIndented level ++ ',' :: indentItems level (next :: items)

def indentEntries (level : Nat) : List (String × Value) → List Char
  | [] => []
  | [(key, value)] =>
      newLine level ++ quote key.toList ++ ':' :: ' ' :: value.writeIndented level
  | (key, value) :: next :: entries =>
      newLine level ++ quote key.toList ++ ':' :: ' ' :: value.writeIndented level ++
        ',' :: indentEntries level (next :: entries)

end

def Value.indented (v : Value) : String := String.ofList (v.writeIndented 0)

end Json
end RecordFilter

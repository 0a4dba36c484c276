/-
The UTF-8 bytes of a text, and texts whose characters know where they stand.

Dates are read byte by byte, since a pattern may skip a number of bytes, and a
fault in a pattern is reported at the index of a byte.
-/

namespace RecordFilter
namespace Text

def bytes (text : List Char) : List UInt8 :=
  text.flatMap String.utf8EncodeChar

structure Mark where
  index : Nat
  char : Char
deriving DecidableEq, Repr, Inhabited

def locate (start : Nat) : List Char → List Mark
  | [] => []
  | c :: cs => ⟨start, c⟩ :: locate (start + c.utf8Size) cs

theorem bytes_append (left right : List Char) : bytes (left ++ right) = bytes left ++ bytes right := by
  simp [bytes]

end Text
end RecordFilter

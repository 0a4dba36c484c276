/-
Blank characters and blank texts.

The blank characters are those with the Unicode property `White_Space`; a text
is blank when it holds nothing else.  Control characters of other kinds and the
byte order mark are not blank.
-/

namespace RecordFilter
namespace Text

/-- The ranges of the Unicode property `White_Space`, ends included. -/
def blankRanges : List (Nat × Nat) :=
  [(0x09, 0x0D), (0x20, 0x20), (0x85, 0x85), (0xA0, 0xA0), (0x1680, 0x1680),
   (0x2000, 0x200A), (0x2028, 0x2029), (0x202F, 0x202F), (0x205F, 0x205F),
   (0x3000, 0x3000)]

def isBlankChar (c : Char) : Bool :=
  blankRanges.any fun range => range.1 ≤ c.toNat && c.toNat ≤ range.2

/-- A text of blank characters only; the empty text is blank. -/
def isBlank (text : List Char) : Bool :=
  text.all isBlankChar

/-- The blanks of ASCII are space, tab, line feed, form feed and carriage
return; the vertical tab is not one of them. -/
def isAsciiBlank (c : Char) : Bool :=
  c = ' ' || c = '\t' || c = '\n' || c = '\x0c' || c = '\r'

end Text
end RecordFilter

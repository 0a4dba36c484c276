/-
What a file holds.

Bytes are read line by line, and each line has to be text.  Of bytes that are no
text as a whole only the lines in front of the first bad one can be read as text.
-/

namespace RecordFilter

/-- The lines in front of the first one that is no text, and the bytes from there on. -/
structure Content where
  text : String
  rest : List UInt8
deriving DecidableEq, Repr, Inhabited

namespace Content

def isWhole (content : Content) : Bool := content.rest.isEmpty

def ofText (text : String) : Content := ⟨text, []⟩

instance : Coe String Content := ⟨ofText⟩

def append (content : Content) (more : String) : Content :=
  if content.isWhole then ofText (content.text ++ more)
  else ⟨content.text, content.rest ++ more.toUTF8.toList⟩

theorem append_ofText (text more : String) :
    (ofText text).append more = ofText (text ++ more) := rfl

/-! ### Bytes -/

def lineBreak : UInt8 := 10

def bytesOfLines : List UInt8 → List (List UInt8)
  | [] => []
  | byte :: bytes =>
      match byte == lineBreak, bytesOfLines bytes with
      | true, lines => [byte] :: lines
      | false, [] => [[byte]]
      | false, line :: lines => (byte :: line) :: lines

def ofLines : List (List UInt8) → Content
  | [] => ofText ""
  | line :: lines =>
      match String.fromUTF8? ⟨line.toArray⟩ with
      | none => ⟨"", (line :: lines).flatten⟩
      | some text =>
          let more := ofLines lines
          ⟨text ++ more.text, more.rest⟩

def ofBytes (bytes : ByteArray) : Content := ofLines (bytesOfLines bytes.toList)

end Content
end RecordFilter

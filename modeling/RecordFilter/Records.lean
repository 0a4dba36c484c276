/-
Records as lines of text.

Each line holds one JSON value; blank lines are skipped but counted.  A carriage
return before a line break is a blank of JSON, so it needs no care.  The first
line that is no JSON value is named by its number.
-/
import RecordFilter.Json.Printer
import RecordFilter.Json.Reader
import RecordFilter.Text.Blank
import RecordFilter.Text.Split

namespace RecordFilter
namespace Records

open Json (Value)

/-- A line that is no record: where the text comes from, and the number of the
line, counted from one. -/
structure Fault where
  source : String
  line : Nat
deriving DecidableEq, Repr, Inhabited

/-- The pieces of a text between its line breaks, without the empty one behind a
line break at the end. -/
def dropLastEmpty : List (List Char) → List (List Char)
  | [] => []
  | [last] => if last = [] then [] else [last]
  | line :: next :: lines => line :: dropLastEmpty (next :: lines)

def lines (text : List Char) : List (List Char) := dropLastEmpty (Text.split '\n' text)

def ofLines (source : String) (number : Nat) : List (List Char) → Except Fault (List Value)
  | [] => .ok []
  | line :: more =>
      if Text.isBlank line then ofLines source (number + 1) more
      else
        match Value.ofText? line with
        | none => .error ⟨source, number⟩
        | some record =>
            match ofLines source (number + 1) more with
            | .error fault => .error fault
            | .ok records => .ok (record :: records)

def read (source text : String) : Except Fault (List Value) :=
  ofLines source 1 (lines text.toList)

def writeChars : List Value → List Char
  | [] => []
  | record :: records => record.write ++ '\n' :: writeChars records

def write (records : List Value) : String := String.ofList (writeChars records)

end Records
end RecordFilter

/-
Fields of nested records.

A path is cut at its dots, and each segment is looked up in the object that the
ones before it lead to.  A missing key and null both mean that there is no
value; to go on behind any other value is an error.
-/
import RecordFilter.Eval.Error
import RecordFilter.Json.Value
import RecordFilter.Text.Split

namespace RecordFilter
namespace Eval

open Json (Value)

def pathDelimiter : Char := '.'

def segments (path : String) : List String :=
  (Text.split pathDelimiter path.toList).map String.ofList

theorem segments_append (front rest : String) :
    segments (front ++ "." ++ rest) = segments front ++ segments rest := by
  have hPath : (front ++ "." ++ rest).toList = front.toList ++ pathDelimiter :: rest.toList := by
    simp [pathDelimiter]
  rw [segments, hPath, Text.split_append, List.map_append, segments, segments]

/-- A value that is there; null is not. -/
def present? : Value → Option Value
  | .null => none
  | value => some value

/-- The value that segments lead to.  `path` is the whole path, for the error. -/
def follow (path : String) : List String → Value → Except EvalError (Option Value)
  | [], value => .ok (present? value)
  | segment :: more, value =>
      match value with
      | .object entries =>
          match Json.lookup? segment entries with
          | some next => follow path more next
          | none => .ok none
      | .null => .ok none
      | other => .error (.unresolvedField path segment other.kind)

theorem follow_null (path : String) (more : List String) :
    follow path more .null = .ok none := by
  cases more <;> rfl

def resolve (record : Value) (path : String) : Except EvalError (Option Value) :=
  follow path (segments path) record

end Eval
end RecordFilter

/-
Settings documents.

Whatever its notation, a settings file is a table of named nodes.  A node is
nothing, a scalar with its text, a list or a table; numbers and truth values
count by their text.
-/
import RecordFilter.Decimal.Layout
import RecordFilter.Json.Value

namespace RecordFilter
namespace Settings

inductive Node where
  | nothing
  | scalar (text : String)
  | list (items : List Node)
  | table (entries : List (String × Node))
deriving Inhabited, Repr

namespace Node

def bool (b : Bool) : Node := .scalar (if b then "true" else "false")

def integer (n : Int) : Node := .scalar (String.ofList (Decimal.writeInteger n))

def float (x : Float) : Node := .scalar (String.ofList (Decimal.plainLayout.write x))

def lookup? (key : String) : List (String × Node) → Option Node
  | [] => none
  | (other, node) :: entries => if other = key then some node else lookup? key entries

mutual

/-- The node of a JSON value.  A whole number beyond 64 signed bits is taken as a
floating one. -/
def ofJson : Json.Value → Node
  | .null => .nothing
  | .bool b => .bool b
  | .integer n => if n.value < 0x8000000000000000 then .integer n.value else .float (Float.ofInt n.value)
  | .float x => .float x.value
  | .text s => .scalar s
  | .array items => .list (itemsOfJson items)
  | .object entries => .table (entriesOfJson entries)

def itemsOfJson : List Json.Value → List Node
  | [] => []
  | item :: items => ofJson item :: itemsOfJson items

def entriesOfJson : List (String × Json.Value) → List (String × Node)
  | [] => []
  | (key, value) :: entries => (key, ofJson value) :: entriesOfJson entries

end

end Node
end Settings
end RecordFilter

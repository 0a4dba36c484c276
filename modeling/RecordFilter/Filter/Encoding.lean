/-
Filters as JSON.

A comparison is an object with the only key `leaf`, a group one with the only key
`group`; inside stands an object with the parts under their names.  Parts of
other names are ignored, missing ones and wrong kinds are errors.  The kind of a
value is the kind of its JSON: whole numbers of 64 signed bits are integers, all
other numbers are floating.
-/
import RecordFilter.Filter.Basic
import RecordFilter.Json.Value

namespace RecordFilter

/-! ### Values -/

namespace Atom

mutual

/-- The JSON of a value; a floating number that is not finite has none and
becomes null. -/
def toJson : Atom → Json.Value
  | .bool b => .bool b
  | .integer n => .integer (.ofInt64 n)
  | .float x =>
      match Json.Finite.ofFloat? x with
      | some finite => .float finite
      | none => .null
  | .text s => .text s
  | .list items => .array (itemsToJson items)

def itemsToJson : List Atom → List Json.Value
  | [] => []
  | item :: items => item.toJson :: itemsToJson items

end

/-- The value of a whole number: an integer if it fits 64 signed bits, else the
nearest floating number. -/
def ofWhole (n : Json.Whole) : Atom :=
  if n.value < 0x8000000000000000 then .integer (Int64.ofInt n.value)
  else .float (Float.ofInt n.value)

mutual

/-- The value that a JSON denotes; null and objects denote none. -/
def ofJson? : Json.Value → Option Atom
  | .bool b => some (.bool b)
  | .integer n => some (ofWhole n)
  | .float x => some (.float x.value)
  | .text s => some (.text s)
  | .array items =>
      match itemsOfJson? items with
      | some atoms => some (.list atoms)
      | none => none
  | .null => none
  | .object _ => none

def itemsOfJson? : List Json.Value → Option (List Atom)
  | [] => some []
  | item :: items =>
      match ofJson? item, itemsOfJson? items with
      | some atom, some atoms => some (atom :: atoms)
      | _, _ => none

end

def kind : Atom → String
  | .bool _ => "Bool"
  | .integer _ => "Integer"
  | .float _ => "Float"
  | .text _ => "Text"
  | .list _ => "List"

end Atom

/-! ### Connectives -/

namespace Logic

def toJson (logic : Logic) : Json.Value := .text (String.ofList logic.word)

/-- The connective that a JSON denotes: its word, or an object with the word as
its only key and null behind it. -/
def ofJson? : Json.Value → Option Logic
  | .text s => ofWord? s.toList
  | .object [(key, .null)] => ofWord? key.toList
  | _ => none

end Logic

/-! ### Trees -/

namespace Filter

mutual

def toJson : Filter → Json.Value
  | .leaf field operator value =>
      .object [("leaf", .object
        [("field", .text field), ("operator", .text operator), ("value", value.toJson)])]
  | .group logic children =>
      .object [("group", .object
        [("logic", logic.toJson), ("children", .array (childrenToJson children))])]

def childrenToJson : List Filter → List Json.Value
  | [] => []
  | child :: children => child.toJson :: childrenToJson children

end

def optionToJson : Option Filter → Json.Value
  | none => .null
  | some filter => filter.toJson

def leafOfParts? (field operator value : Json.Value) : Option Filter :=
  match field, operator, Atom.ofJson? value with
  | .text field, .text operator, some atom => some (.leaf field operator atom)
  | _, _, _ => none

def leafOfJson? : Json.Value → Option Filter
  | .object entries =>
      match Json.lookup? "field" entries, Json.lookup? "operator" entries,
        Json.lookup? "value" entries with
      | some field, some operator, some value => leafOfParts? field operator value
      | _, _, _ => none
  | _ => none

def groupOfParts? (logic : Json.Value) : Option (List Filter) → Option Filter
  | none => none
  | some children => (Logic.ofJson? logic).map fun logic => .group logic children

mutual

def ofJson? : Json.Value → Option Filter
  | .object [(key, inner)] =>
      if key = "leaf" then leafOfJson? inner
      else if key = "group" then groupOfJson? inner
      else none
  | _ => none

def groupOfJson? : Json.Value → Option Filter
  | .object entries =>
      match Json.lookup? "logic" entries with
      | none => none
      | some logic => groupOfParts? logic (childrenAmong? entries)
  | _ => none

def childrenAmong? : List (String × Json.Value) → Option (List Filter)
  | [] => none
  | (key, value) :: entries =>
      if key = "children" then childrenOfJson? value else childrenAmong? entries

def childrenOfJson? : Json.Value → Option (List Filter)
  | .array items => itemsOfJson? items
  | _ => none

def itemsOfJson? : List Json.Value → Option (List Filter)
  | [] => some []
  | item :: items =>
      match ofJson? item, itemsOfJson? items with
      | some child, some children => some (child :: children)
      | _, _ => none

end

end Filter
end RecordFilter

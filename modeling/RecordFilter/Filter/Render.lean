/-
The text of a filter.

Tokens are joined by one delimiter.  A group inside another one stands in
brackets that are glued to its first and last token; a group of one member is
written as that member, and a group without members leaves no text.
-/
import RecordFilter.Filter.Basic

namespace RecordFilter
namespace Filter

def delimiter : Char := '~'

def leftBracket : Char := '('

def rightBracket : Char := ')'

def connective (logic : Logic) : List Char := delimiter :: logic.word ++ [delimiter]

def bracket (top : Bool) (text : List Char) : List Char :=
  if top then text else leftBracket :: text ++ [rightBracket]

mutual

/-- The text of a filter, with brackets around a group unless it is at the top. -/
def write (top : Bool) : Filter → List Char
  | .leaf field operator value =>
      field.toList ++ delimiter :: operator.toList ++ delimiter :: value.write
  | .group _ [] => []
  | .group _ [only] => only.write top
  | .group logic (child :: next :: children) =>
      bracket top (child.write false ++ writeMore logic (next :: children))

def writeMore (logic : Logic) : List Filter → List Char
  | [] => []
  | child :: children => connective logic ++ child.write false ++ writeMore logic children

end

def render (filter : Filter) : String := String.ofList (filter.write true)

def renderOption : Option Filter → String
  | none => ""
  | some filter => filter.render

end Filter
end RecordFilter

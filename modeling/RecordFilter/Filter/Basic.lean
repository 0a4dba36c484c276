/-
Filter trees.

A filter is a comparison of one field with one value, or a group of filters
combined by one connective.  `simplify` replaces each group of one member by
that member, from the inside out.
-/
import RecordFilter.Filter.Atom
import RecordFilter.Filter.Logic

namespace RecordFilter

inductive Filter where
  | leaf (field operator : String) (value : Atom)
  | group (logic : Logic) (children : List Filter)
deriving Inhabited, Repr

namespace Filter

/-- Members that all have to hold; without members the filter holds. -/
def all (children : List Filter) : Filter := .group .and children

/-- Members of which one has to hold; without members the filter fails. -/
def any (children : List Filter) : Filter := .group .or children

def isLeaf : Filter → Bool
  | .leaf _ _ _ => true
  | .group _ _ => false

mutual

def leafCount : Filter → Nat
  | .leaf _ _ _ => 1
  | .group _ children => leafCountAll children

def leafCountAll : List Filter → Nat
  | [] => 0
  | child :: children => child.leafCount + leafCountAll children

end

/-- A group, or its member if it has only one. -/
def collapse (logic : Logic) : List Filter → Filter
  | [only] => only
  | children => .group logic children

mutual

def simplify : Filter → Filter
  | .leaf field operator value => .leaf field operator value
  | .group logic children => collapse logic (simplifyAll children)

def simplifyAll : List Filter → List Filter
  | [] => []
  | child :: children => child.simplify :: simplifyAll children

end

mutual

def same : Filter → Filter → Bool
  | .leaf field operator value, .leaf field' operator' value' =>
      field == field' && operator == operator' && value.same value'
  | .group logic children, .group logic' children' =>
      logic == logic' && sameAll children children'
  | _, _ => false

def sameAll : List Filter → List Filter → Bool
  | [], [] => true
  | child :: children, other :: others => same child other && sameAll children others
  | _, _ => false

end

end Filter
end RecordFilter

/-
The comparison operators.

There are fifteen of them, each with one token.  Tokens are matched exactly, and
`ofToken?_token` says that an operator is found again under its own token.
-/

namespace RecordFilter

inductive Operator where
  | equal
  | notEqual
  | isNull
  | isNotNull
  | isEmpty
  | isNotEmpty
  | contains
  | notContains
  | startsWith
  | endsWith
  | greaterThan
  | lessThan
  | greaterThanOrEqual
  | lessThanOrEqual
  | isIn
deriving DecidableEq, Repr, Inhabited

namespace Operator

def all : List Operator :=
  [.equal, .notEqual, .isNull, .isNotNull, .isEmpty, .isNotEmpty, .contains,
   .notContains, .startsWith, .endsWith, .greaterThan, .lessThan,
   .greaterThanOrEqual, .lessThanOrEqual, .isIn]

def token : Operator → String
  | .equal => "eq"
  | .notEqual => "neq"
  | .isNull => "isnull"
  | .isNotNull => "isnotnull"
  | .isEmpty => "isempty"
  | .isNotEmpty => "isnotempty"
  | .contains => "contains"
  | .notContains => "doesnotcontain"
  | .startsWith => "startswith"
  | .endsWith => "endswith"
  | .greaterThan => "gt"
  | .lessThan => "lt"
  | .greaterThanOrEqual => "gte"
  | .lessThanOrEqual => "lte"
  | .isIn => "in"

def ofToken? (token : String) : Option Operator :=
  all.find? fun operator => operator.token = token

def unknownMessage (token : String) : String := "unknown operator: " ++ token

theorem ofToken?_token (operator : Operator) : ofToken? operator.token = some operator := by
  cases operator <;> decide

theorem token_of_ofToken? {token : String} {operator : Operator}
    (hFound : ofToken? token = some operator) : operator.token = token := by
  have hHit := List.find?_some hFound
  simpa using hHit

end Operator
end RecordFilter

/-
The two connectives of a filter.

A group combines its members by one connective.  In text a connective is one of
two words, matched exactly; `ofWord?_eq_some_iff` says that no other word is
one.
-/

namespace RecordFilter

inductive Logic where
  | and
  | or
deriving DecidableEq, Repr, Inhabited

namespace Logic

def word : Logic → List Char
  | .and => ['a', 'n', 'd']
  | .or => ['o', 'r']

def ofWord? (token : List Char) : Option Logic :=
  if token = word .and then some .and
  else if token = word .or then some .or
  else none

theorem ofWord?_eq_some_iff {token : List Char} {logic : Logic} :
    ofWord? token = some logic ↔ token = logic.word := by
  unfold ofWord?
  constructor
  · intro h
    split at h
    · cases h
      assumption
    · split at h
      · cases h
        assumption
      · cases h
  · rintro rfl
    cases logic <;> decide

end Logic
end RecordFilter

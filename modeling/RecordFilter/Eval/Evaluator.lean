/-
Applying filters to records.

An evaluator knows the format of dates, which only the comparisons by order look
at.  A group asks its members from left to right and stops at the first answer
that decides, so an error behind it does not show.
-/
import RecordFilter.Date.Description
import RecordFilter.Date.Reading
import RecordFilter.Eval.Compare
import RecordFilter.Eval.Path
import RecordFilter.Filter.Basic
import RecordFilter.Filter.Operator
import RecordFilter.Text.Search

namespace RecordFilter

open Json (Value)

structure Evaluator where
  format : String
  pattern : Date.Pattern
deriving Inhabited

namespace Evaluator

def ofFormat (format : String) : Except EvalError Evaluator :=
  match Date.Pattern.ofText format with
  | .error fault => .error (.dateFormat format fault)
  | .ok pattern => .ok ⟨format, pattern⟩

def moment? (evaluator : Evaluator) (text : List Char) : Option Date.Moment :=
  evaluator.pattern.moment? text

/-- The moment that a record value denotes; only strings denote one. -/
def momentOfValue? (evaluator : Evaluator) : Value → Option Date.Moment
  | .text s => evaluator.moment? s.toList
  | _ => none

/-- The order of a record value and a filter value: as dates if the record holds
a date, else as numbers or texts. -/
def order (evaluator : Evaluator) (actual : Value) (expected : Atom) :
    Except EvalError (Option Ordering) :=
  match evaluator.momentOfValue? actual with
  | some left =>
      match evaluator.moment? expected.write with
      | some right => .ok (some (left.order right))
      | none => .error (.invalidDate expected.display evaluator.format)
  | none => .ok (Eval.orderValues? actual expected)

def ordered (evaluator : Evaluator) (accepted : List Ordering) (actual : Value)
    (expected : Atom) : Except EvalError Bool :=
  match evaluator.order actual expected with
  | .error error => .error error
  | .ok none => .ok false
  | .ok (some order) => .ok (accepted.contains order)

def among (actual : Value) : Atom → Except EvalError Bool
  | .list items => .ok (items.any fun item => Eval.equals actual item)
  | .text pieces => .ok (Eval.equalsPiece actual pieces)
  | other => .error (.invalidInOperand other.display)

def holds (evaluator : Evaluator) (operator : Operator) (actual : Value) (expected : Atom) :
    Except EvalError Bool :=
  match operator with
  | .isNull => .ok false
  | .isNotNull => .ok true
  | .equal => .ok (Eval.equals actual expected)
  | .notEqual => .ok (!Eval.equals actual expected)
  | .isEmpty => .ok (isEmptyText actual)
  | .isNotEmpty => .ok (!isEmptyText actual)
  | .contains => .ok (Text.occursIn expected.write (Eval.text actual))
  | .notContains => .ok (!Text.occursIn expected.write (Eval.text actual))
  | .startsWith => .ok (Text.beginsWith (Eval.text actual) expected.write)
  | .endsWith => .ok (Text.endsWith (Eval.text actual) expected.write)
  | .greaterThan => evaluator.ordered [.gt] actual expected
  | .greaterThanOrEqual => evaluator.ordered [.gt, .eq] actual expected
  | .lessThan => evaluator.ordered [.lt] actual expected
  | .lessThanOrEqual => evaluator.ordered [.lt, .eq] actual expected
  | .isIn => among actual expected
where
  isEmptyText : Value → Bool
    | .text s => s == ""
    | _ => false

/-- Whether a comparison holds when there is no value: only a test for null and an
inequality do. -/
def holdsMissing (operator : Operator) : Bool :=
  operator == .isNull || operator == .notEqual

def testLeaf (evaluator : Evaluator) (field operator : String) (expected : Atom)
    (record : Value) : Except EvalError Bool :=
  match Eval.resolve record field with
  | .error error => .error error
  | .ok actual =>
      match Operator.ofToken? operator with
      | none => .error (.unsupportedOperator operator)
      | some operator =>
          match actual with
          | none => .ok (holdsMissing operator)
          | some actual => evaluator.holds operator actual expected

mutual

def test (evaluator : Evaluator) (record : Value) : Filter → Except EvalError Bool
  | .leaf field operator value => evaluator.testLeaf field operator value record
  | .group .and children => evaluator.testAll record children
  | .group .or children => evaluator.testAny record children

/-- Whether all filters hold, asked in order up to the first that does not. -/
def testAll (evaluator : Evaluator) (record : Value) : List Filter → Except EvalError Bool
  | [] => .ok true
  | child :: children =>
      match evaluator.test record child with
      | .error error => .error error
      | .ok false => .ok false
      | .ok true => evaluator.testAll record children

def testAny (evaluator : Evaluator) (record : Value) : List Filter → Except EvalError Bool
  | [] => .ok false
  | child :: children =>
      match evaluator.test record child with
      | .error error => .error error
      | .ok true => .ok true
      | .ok false => evaluator.testAny record children

end

end Evaluator
end RecordFilter

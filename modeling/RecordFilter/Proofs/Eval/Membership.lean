/-
Membership as a disjunction of equalities.

The operator `in` looks up its field and its operator once and then asks for one listed
value after the other.  A group of equalities looks the field up again for each of its
members.  Both have the same answer or the same error, if at least one value is listed: a
group without members does not look at the field, and so it hides an error of its path.
-/
import Mathlib
import RecordFilter.Eval.Evaluator

namespace RecordFilter

open Json (Value)

/-! ### Listed values -/

/-- The values that an operand of `in` lists: the items of a list, and the pieces of a text
between its commas. -/
def Atom.listed : Atom → List Atom
  | .list items => items
  | .text s => (Text.split ',' s.toList).map fun piece => .text (String.ofList piece)
  | .bool _ | .integer _ | .float _ => []

/-- A text lists at least one value, if only the empty text. -/
theorem Atom.listed_text_ne_nil (s : String) : (Atom.text s).listed ≠ [] := by
  intro hNone
  exact Text.split_ne_nil ',' s.toList (List.map_eq_nil_iff.mp hNone)

namespace Evaluator

variable {evaluator : Evaluator} {record : Value} {field : String} {operand : Atom}

def equalities (field : String) (values : List Atom) : List Filter :=
  values.map fun value => .leaf field "eq" value

theorem among_of_listed (actual : Value) (hListed : operand.listed ≠ []) :
    among actual operand = .ok (operand.listed.any fun value => Eval.equals actual value) := by
  cases operand with
  | list items => rfl
  | text s =>
      rw [among, Eval.equalsPiece, Atom.listed, List.any_map]
      rfl
  | bool _ | integer _ | float _ => exact absurd rfl hListed

theorem test_equality (value : Atom) :
    evaluator.test record (.leaf field "eq" value) =
      match Eval.resolve record field with
      | .error error => .error error
      | .ok none => .ok false
      | .ok (some actual) => .ok (Eval.equals actual value) := by
  have hOperator : Operator.ofToken? "eq" = some .equal := by decide
  rw [test, testLeaf]
  cases Eval.resolve record field with
  | error error => rfl
  | ok actual =>
      simp only [hOperator]
      cases actual with
      | none => rfl
      | some actual => rfl

theorem test_membership (hListed : operand.listed ≠ []) :
    evaluator.test record (.leaf field "in" operand) =
      match Eval.resolve record field with
      | .error error => .error error
      | .ok none => .ok false
      | .ok (some actual) =>
          .ok (operand.listed.any fun value => Eval.equals actual value) := by
  have hOperator : Operator.ofToken? "in" = some .isIn := by decide
  rw [test, testLeaf]
  cases Eval.resolve record field with
  | error error => rfl
  | ok actual =>
      simp only [hOperator]
      cases actual with
      | none => rfl
      | some actual => exact among_of_listed actual hListed

/-! ### The equalities of a group -/

theorem testAny_equalities_of_error {error : EvalError} {values : List Atom}
    (hField : Eval.resolve record field = .error error) (hSome : values ≠ []) :
    evaluator.testAny record (equalities field values) = .error error := by
  cases values with
  | nil => exact absurd rfl hSome
  | cons value values =>
      rw [equalities, List.map_cons, testAny, test_equality, hField]

theorem testAny_equalities_of_none (values : List Atom)
    (hField : Eval.resolve record field = .ok none) :
    evaluator.testAny record (equalities field values) = .ok false := by
  induction values with
  | nil => rfl
  | cons value values ih =>
      rw [equalities, List.map_cons, testAny, test_equality, hField]
      exact ih

theorem testAny_equalities_of_some {actual : Value} (values : List Atom)
    (hField : Eval.resolve record field = .ok (some actual)) :
    evaluator.testAny record (equalities field values) =
      .ok (values.any fun value => Eval.equals actual value) := by
  induction values with
  | nil => rfl
  | cons value values ih =>
      have hFirst : evaluator.test record (.leaf field "eq" value) =
          .ok (Eval.equals actual value) := by
        rw [test_equality, hField]
      rw [equalities, List.map_cons, testAny, hFirst, List.any_cons]
      cases Eval.equals actual value with
      | true => rfl
      | false => exact ih

/-- A field is one of the listed values exactly if it is equal to one of them, and where the
one question fails, so does the other, with the same error. -/
theorem test_membership_eq_any (hListed : operand.listed ≠ []) :
    evaluator.test record (.leaf field "in" operand) =
      evaluator.test record (.any (equalities field operand.listed)) := by
  rw [test_membership hListed, Filter.any, test]
  cases hField : Eval.resolve record field with
  | error error => exact (testAny_equalities_of_error hField hListed).symm
  | ok actual =>
      cases actual with
      | none => exact (testAny_equalities_of_none operand.listed hField).symm
      | some actual => exact (testAny_equalities_of_some operand.listed hField).symm

/-- A comparison by `in` is the disjunction of equalities with the pieces of its text between
commas, empty pieces included, or with the items of its list if there are any: on every
record both have the same answer or the same error. -/
theorem membership_is_any_equality (evaluator : Evaluator) (record : Value) (field : String) :
    (∀ s : String,
      evaluator.test record (.leaf field "in" (.text s)) =
        evaluator.test record (.any ((Text.split ',' s.toList).map fun piece =>
          .leaf field "eq" (.text (String.ofList piece))))) ∧
    ∀ items : List Atom, items ≠ [] →
      evaluator.test record (.leaf field "in" (.list items)) =
        evaluator.test record (.any (items.map fun item => .leaf field "eq" item)) := by
  constructor
  · intro s
    rw [test_membership_eq_any (Atom.listed_text_ne_nil s), equalities, Atom.listed,
      List.map_map]
    rfl
  · intro items hSome
    have hListed : (Atom.list items).listed ≠ [] := hSome
    exact test_membership_eq_any hListed

/-- A nested list that the field is equal to, a text with an empty piece, and a path that
goes on behind a number. -/
theorem membership_is_any_equality_mixed :
    let evaluator : Evaluator := ⟨"", default⟩
    let five : Json.Whole := ⟨5, by decide, by decide⟩
    let record : Value := .object
      [("empty", .text ""), ("n", .integer five), ("pair", .array [.integer five, .null])]
    let nested : List Atom := [.text "5", .list [.integer 5, .text "null"]]
    nested ≠ [] ∧
      evaluator.test record (.leaf "pair" "in" (.list nested)) = .ok true ∧
      evaluator.test record (.any (nested.map fun item => .leaf "pair" "eq" item)) = .ok true ∧
      evaluator.test record (.any (nested.map fun item => .leaf "n.x" "eq" item)) =
        .error (.unresolvedField "n.x" "x" "a number") ∧
      evaluator.test record (.leaf "empty" "in" (.text "a,,b")) = .ok true := by
  intro evaluator five record nested
  have hSome : nested ≠ [] := List.cons_ne_nil _ _
  have hPair : evaluator.test record (.leaf "pair" "in" (.list nested)) = .ok true := by
    cbv
  have hPath : evaluator.test record (.leaf "n.x" "in" (.list nested)) =
      .error (.unresolvedField "n.x" "x" "a number") := by
    cbv
  refine ⟨hSome, hPair, ?_, ?_, ?_⟩
  · rw [← (membership_is_any_equality evaluator record "pair").2 nested hSome]
    exact hPair
  · rw [← (membership_is_any_equality evaluator record "n.x").2 nested hSome]
    exact hPath
  · rw [(membership_is_any_equality evaluator record "empty").1]
    cbv

end Evaluator
end RecordFilter

/-
Negation of a filter.

The dual of a tree has the other connective in every group and the opposite operator in
every comparison.  It gives the opposite answer on every record on which each comparison
has the opposite answer of its dual, and fails with the same error where the tree fails:
one run asks whether all members hold, the other whether one of their duals does, and both
stop at the same member.

Where a field is not there most operators fail, and their opposites too, and no order with
NaN holds; `Comparison.HasOpposite` leaves these out.
-/
import Mathlib
import RecordFilter.Proofs.Eval.WholeNumbers

namespace RecordFilter

open Json (Value)

/-! ### Duals -/

def Logic.dual : Logic → Logic
  | .and => .or
  | .or => .and

namespace Operator

/-- The opposite of an operator; the last three have none and stay. -/
def dual : Operator → Operator
  | .equal => .notEqual
  | .notEqual => .equal
  | .isNull => .isNotNull
  | .isNotNull => .isNull
  | .isEmpty => .isNotEmpty
  | .isNotEmpty => .isEmpty
  | .contains => .notContains
  | .notContains => .contains
  | .greaterThan => .lessThanOrEqual
  | .lessThanOrEqual => .greaterThan
  | .greaterThanOrEqual => .lessThan
  | .lessThan => .greaterThanOrEqual
  | .startsWith => .startsWith
  | .endsWith => .endsWith
  | .isIn => .isIn

/-- The token of the opposite operator; a token that no operator has stays. -/
def dualToken (token : String) : String :=
  match ofToken? token with
  | some operator => operator.dual.token
  | none => token

theorem ofToken?_dualToken (token : String) :
    ofToken? (dualToken token) = (ofToken? token).map dual := by
  unfold dualToken
  cases hFound : ofToken? token with
  | none => exact hFound
  | some operator => exact ofToken?_token operator.dual

end Operator

namespace Filter

mutual

/-- The other connective in every group and the opposite operator in every comparison. -/
def dual : Filter → Filter
  | .leaf field operator value => .leaf field (Operator.dualToken operator) value
  | .group logic children => .group logic.dual (dualAll children)

def dualAll : List Filter → List Filter
  | [] => []
  | child :: children => child.dual :: dualAll children

end

end Filter

/-! ### Orders -/

namespace Eval

open Decimal (unpacked)

variable {actual : Value} {expected : Atom} {x y : Float}

theorem unpacked_ne_of_number? (hNumber : number? actual = some x) :
    unpacked x ≠ .notANumber := by
  intro hNaN
  cases actual with
  | integer n =>
      cases hNumber
      have hBelow := below_whole n
      rw [hNaN] at hBelow
      cases hBelow
  | float z =>
      cases hNumber
      have hFinite : (unpacked z.value).isFinite = true := z.isFinite
      rw [hNaN] at hFinite
      cases hFinite
  | null | bool _ | text _ | array _ | object _ => cases hNumber

/-- A record value and a filter value have no order only if the second is NaN. -/
theorem exists_isNaN_of_orderValues? (hOrder : orderValues? actual expected = none) :
    ∃ x y, number? actual = some x ∧ numberOfAtom? expected = some y ∧ y.isNaN = true := by
  unfold orderValues? at hOrder
  split at hOrder
  · cases hOrder
  · split at hOrder
    · rename_i x y hNumber hRead
      rw [orderNumbers?_eq_compare, Decimal.compare_eq_none_iff] at hOrder
      refine ⟨x, y, hNumber, hRead, ?_⟩
      rcases hOrder with hLeft | hRight
      · exact absurd hLeft (unpacked_ne_of_number? hNumber)
      · change (unpacked y).isNaN = true
        rw [hRight]
        rfl
    · cases hOrder

end Eval

/-! ### Comparisons -/

/-- What a comparison needs on a record to have the opposite answer of its dual: an operator
that has an opposite, a field that is there unless the operator is about that, and numbers
that have an order. -/
structure Comparison.HasOpposite (record : Value) (comparison : Comparison) : Prop where
  operator : comparison.operator ∉ ["startswith", "endswith", "in"]
  present : comparison.operator ∈
      ["isempty", "isnotempty", "contains", "doesnotcontain", "gt", "gte", "lt", "lte"] →
    Eval.resolve record comparison.field ≠ .ok none
  ordered : comparison.operator ∈ ["gt", "gte", "lt", "lte"] →
    ∀ actual x y, Eval.resolve record comparison.field = .ok (some actual) →
      Eval.number? actual = some x → Eval.numberOfAtom? comparison.value = some y →
        y.isNaN = false

namespace Evaluator

variable {evaluator : Evaluator} {record actual : Value} {expected : Atom}

/-- Where there is an order, the operators that accept the other orders give the opposite
answer. -/
theorem ordered_eq_map_not {accepted others : List Ordering}
    (hOthers : ∀ order, others.contains order = !accepted.contains order)
    (hSome : evaluator.order actual expected ≠ .ok none) :
    evaluator.ordered others actual expected =
      (evaluator.ordered accepted actual expected).map not := by
  unfold ordered
  cases hOrder : evaluator.order actual expected with
  | error error => rfl
  | ok order =>
      cases order with
      | none => exact absurd hOrder hSome
      | some order =>
          change Except.ok (others.contains order) = .ok (!accepted.contains order)
          rw [hOthers]

theorem order_ne_none
    (hNumbers : ∀ x y, Eval.number? actual = some x → Eval.numberOfAtom? expected = some y →
      y.isNaN = false) : evaluator.order actual expected ≠ .ok none := by
  intro hOrder
  unfold order at hOrder
  split at hOrder
  · split at hOrder <;> cases hOrder
  · obtain ⟨x, y, hNumber, hRead, hNaN⟩ :=
      Eval.exists_isNaN_of_orderValues? (Except.ok.inj hOrder)
    rw [hNumbers x y hNumber hRead] at hNaN
    cases hNaN

theorem holds_dual {operator : Operator}
    (hOperator : operator.token ∉ ["startswith", "endswith", "in"])
    (hSome : operator ∈ ordering → evaluator.order actual expected ≠ .ok none) :
    evaluator.holds operator.dual actual expected =
      (evaluator.holds operator actual expected).map not := by
  cases operator with
  | isNull | isNotNull | equal | isEmpty | contains => rfl
  | notEqual | isNotEmpty | notContains =>
      simp only [Operator.dual, holds, Except.map, Bool.not_not]
  | greaterThan | greaterThanOrEqual | lessThan | lessThanOrEqual =>
      apply ordered_eq_map_not
      · intro order
        cases order <;> rfl
      · exact hSome (by decide)
  | startsWith | endsWith | isIn => exact absurd (by decide) hOperator

theorem holdsMissing_dual {operator : Operator}
    (hOperator : operator.token ∉ ["startswith", "endswith", "in"])
    (hMissing : operator.token ∉
      ["isempty", "isnotempty", "contains", "doesnotcontain", "gt", "gte", "lt", "lte"]) :
    holdsMissing operator.dual = !holdsMissing operator := by
  cases operator with
  | isNull | isNotNull | equal | notEqual => rfl
  | startsWith | endsWith | isIn => exact absurd (by decide) hOperator
  | isEmpty | isNotEmpty | contains | notContains | greaterThan | greaterThanOrEqual
  | lessThan | lessThanOrEqual => exact absurd (by decide) hMissing

theorem testLeaf_dual {comparison : Comparison} (hOpposite : comparison.HasOpposite record) :
    evaluator.testLeaf comparison.field (Operator.dualToken comparison.operator)
        comparison.value record =
      (evaluator.testLeaf comparison.field comparison.operator comparison.value record).map
        not := by
  obtain ⟨hOperator, hPresent, hOrdered⟩ := hOpposite
  unfold testLeaf
  cases hField : Eval.resolve record comparison.field with
  | error error => rfl
  | ok actual =>
      simp only [Operator.ofToken?_dualToken]
      cases hFound : Operator.ofToken? comparison.operator with
      | none =>
          have hToken : Operator.dualToken comparison.operator = comparison.operator := by
            rw [Operator.dualToken, hFound]
          simp only [Option.map_none, hToken]
          rfl
      | some operator =>
          have hToken := Operator.token_of_ofToken? hFound
          rw [← hToken] at hOperator hPresent hOrdered
          cases actual with
          | none =>
              have hMissing := holdsMissing_dual hOperator fun hMember => hPresent hMember hField
              exact congrArg Except.ok hMissing
          | some actual =>
              apply holds_dual hOperator
              intro hOrdering
              apply order_ne_none
              intro x y
              have hMember := List.mem_map_of_mem (f := Operator.token) hOrdering
              exact hOrdered hMember actual x y hField

/-! ### Trees -/

open RecordFilter.Filter (dual dualAll comparisons comparisonsIn)

mutual

/-- All members of a group hold exactly when none of their duals does, and asking one after
the other stops at the same member. -/
theorem test_dual (evaluator : Evaluator) {record : Value} : ∀ {filter : Filter},
    (∀ comparison ∈ filter.comparisons, comparison.HasOpposite record) →
      evaluator.test record filter.dual = (evaluator.test record filter).map not
  | .leaf field operator value, hOpposite => by
      rw [comparisons, List.forall_mem_singleton] at hOpposite
      rw [dual, test, test]
      exact testLeaf_dual hOpposite
  | .group .and children, hOpposite => by
      rw [dual, Logic.dual, test, test]
      exact testAny_dualAll evaluator hOpposite
  | .group .or children, hOpposite => by
      rw [dual, Logic.dual, test, test]
      exact testAll_dualAll evaluator hOpposite

theorem testAny_dualAll (evaluator : Evaluator) {record : Value} : ∀ {children : List Filter},
    (∀ comparison ∈ comparisonsIn children, comparison.HasOpposite record) →
      evaluator.testAny record (dualAll children) = (evaluator.testAll record children).map not
  | [], _ => rfl
  | child :: children, hOpposite => by
      rw [comparisonsIn, List.forall_mem_append] at hOpposite
      rw [dualAll, testAny, testAll, test_dual evaluator hOpposite.1]
      cases evaluator.test record child with
      | error error => rfl
      | ok held =>
          cases held with
          | false => rfl
          | true => exact testAny_dualAll evaluator hOpposite.2

theorem testAll_dualAll (evaluator : Evaluator) {record : Value} : ∀ {children : List Filter},
    (∀ comparison ∈ comparisonsIn children, comparison.HasOpposite record) →
      evaluator.testAll record (dualAll children) = (evaluator.testAny record children).map not
  | [], _ => rfl
  | child :: children, hOpposite => by
      rw [comparisonsIn, List.forall_mem_append] at hOpposite
      rw [dualAll, testAll, testAny, test_dual evaluator hOpposite.1]
      cases evaluator.test record child with
      | error error => rfl
      | ok held =>
          cases held with
          | true => rfl
          | false => exact testAll_dualAll evaluator hOpposite.2

end

/-- The dual of a tree gives the opposite answer where the tree has one, and fails with the
same error where the tree fails. -/
theorem dual_negates (evaluator : Evaluator) {record : Value} {filter : Filter}
    (hOpposite : ∀ comparison ∈ filter.comparisons, comparison.HasOpposite record) :
    (∀ held, evaluator.test record filter = .ok held →
      evaluator.test record filter.dual = .ok (!held)) ∧
    ∀ error, evaluator.test record filter = .error error →
      evaluator.test record filter.dual = .error error := by
  have hDual := test_dual evaluator hOpposite
  constructor
  · intro held hTest
    rw [hDual, hTest]
    rfl
  · intro error hTest
    rw [hDual, hTest]
    rfl

/-- A tree that has an answer on a record with a date, a number and a field that is null, and
the same tree in front of a path that goes on behind the number. -/
theorem dual_negates_mixed :
    let evaluator : Evaluator := ⟨"[year]-[ordinal]",
      [.component (.year .zero .full false false), .literal [45],
        .component (.ordinal .zero)]⟩
    let record : Value := .object
      [("at", .text "2024-060"), ("n", .integer ⟨5, by decide, by decide⟩), ("to", .null)]
    let answered : Filter := .all [.leaf "n" "gte" (.integer 3),
      .any [.leaf "to" "isnotnull" (.text ""), .leaf "at" "gt" (.text "2023-365")]]
    let failing : Filter := .all [answered, .leaf "n.x" "eq" (.text "")]
    (∀ comparison ∈ failing.comparisons, comparison.HasOpposite record) ∧
      evaluator.test record answered = .ok true ∧
      evaluator.test record answered.dual = .ok false ∧
      evaluator.test record failing.dual =
        .error (.unresolvedField "n.x" "x" "a number") := by
  intro evaluator record answered failing
  have hNumber : Eval.resolve record "n" = .ok (some (.integer ⟨5, by decide, by decide⟩)) := by
    cbv
  have hDate : Eval.resolve record "at" = .ok (some (.text "2024-060")) := by
    cbv
  have hOpposite : ∀ comparison ∈ failing.comparisons, comparison.HasOpposite record := by
    change ∀ comparison ∈ [⟨"n", "gte", .integer 3⟩, ⟨"to", "isnotnull", .text ""⟩,
      ⟨"at", "gt", .text "2023-365"⟩, ⟨"n.x", "eq", .text ""⟩],
        Comparison.HasOpposite record comparison
    simp only [List.forall_mem_cons]
    refine ⟨⟨by decide, ?_, ?_⟩, ⟨by decide, by simp, by simp⟩, ⟨by decide, ?_, ?_⟩,
      ⟨by decide, by simp, by simp⟩, by simp⟩
    · intro _
      rw [hNumber]
      simp
    · intro _ actual x y _ _ hRead
      cases hRead
      rfl
    · intro _
      rw [hDate]
      simp
    · intro _ actual x y hField hRead
      rw [hDate] at hField
      cases hField
      cases hRead
  have hAnswered : evaluator.test record answered = .ok true := by
    cbv
  have hFailing : evaluator.test record failing =
      .error (.unresolvedField "n.x" "x" "a number") := by
    cbv
  refine ⟨hOpposite, hAnswered, ?_, ?_⟩
  · apply (dual_negates evaluator _).1 true hAnswered
    intro comparison hMember
    exact hOpposite comparison (List.mem_append_left _ hMember)
  · exact (dual_negates evaluator hOpposite).2 _ hFailing

end Evaluator
end RecordFilter

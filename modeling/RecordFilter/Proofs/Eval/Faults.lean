/-
The errors of a filter.

A comparison fails for one of four causes, looked for in this order: its path goes on
behind a value that holds no fields, its operator is unknown, its value lists nothing
although the operator asks for a list, or its value is no date although the record holds
one.  `Comparison.Fault` says what each cause is, without the evaluator, and a comparison
has an answer exactly when there is none.  A tree fails with the error of one of its
comparisons, and when they all have answers, so has the tree.
-/
import RecordFilter.Proofs.Filter.Comparisons

namespace RecordFilter

open Json (Value)

/-! ### Paths -/

namespace Eval

/-- A value that is neither an object nor null: no path goes on behind it. -/
def EndsPaths : Value → Prop
  | .object _ | .null => False
  | .bool _ | .integer _ | .float _ | .text _ | .array _ => True

/-- Segments lead from one value to another, each through an object that has it as a key. -/
inductive Leads : List String → Value → Value → Prop where
  | here (value : Value) : Leads [] value value
  | field {segment : String} {more : List String} {entries : List (String × Value)}
      {next last : Value} (hNext : Json.lookup? segment entries = some next)
      (hMore : Leads more next last) : Leads (segment :: more) (.object entries) last

def StopsAt (record : Value) (path segment : String) (stop : Value) : Prop :=
  ∃ before after, segments path = before ++ segment :: after ∧ Leads before record stop ∧
    EndsPaths stop

theorem present?_eq_some_iff {value actual : Value} :
    present? value = some actual ↔ value = actual ∧ actual ≠ .null := by
  cases value with
  | null =>
      constructor
      · intro hPresent
        cases hPresent
      · intro hSame
        obtain ⟨rfl, hNull⟩ := hSame
        exact absurd rfl hNull
  | bool _ | integer _ | float _ | text _ | array _ | object _ =>
      constructor
      · intro hPresent
        cases hPresent
        exact ⟨rfl, by rintro ⟨⟩⟩
      · intro hSame
        obtain ⟨rfl, -⟩ := hSame
        rfl

theorem follow_eq_some_iff {path : String} {more : List String} {value actual : Value} :
    follow path more value = .ok (some actual) ↔ Leads more value actual ∧ actual ≠ .null := by
  induction more generalizing value with
  | nil =>
      rw [follow, Except.ok.injEq, present?_eq_some_iff]
      apply and_congr_left
      intro _
      constructor
      · intro hSame
        rw [hSame]
        exact .here actual
      · intro hLeads
        cases hLeads
        rfl
  | cons segment more ih =>
      constructor
      · intro hFollow
        cases value with
        | object entries =>
            simp only [follow] at hFollow
            cases hNext : Json.lookup? segment entries with
            | none =>
                rw [hNext] at hFollow
                cases hFollow
            | some next =>
                rw [hNext] at hFollow
                obtain ⟨hLeads, hPresent⟩ := ih.mp hFollow
                exact ⟨.field hNext hLeads, hPresent⟩
        | null => cases hFollow
        | bool _ | integer _ | float _ | text _ | array _ => cases hFollow
      · intro hPath
        obtain ⟨hLeads, hPresent⟩ := hPath
        cases hLeads with
        | field hNext hMore =>
            simp only [follow, hNext]
            exact ih.mpr ⟨hMore, hPresent⟩

theorem follow_eq_error_iff {path : String} {more : List String} {value : Value}
    {error : EvalError} :
    follow path more value = .error error ↔
      ∃ before segment after stop, more = before ++ segment :: after ∧
        Leads before value stop ∧ EndsPaths stop ∧
          error = .unresolvedField path segment stop.kind := by
  induction more generalizing value with
  | nil =>
      constructor
      · intro hFollow
        cases hFollow
      · intro hStops
        obtain ⟨before, segment, after, -, hMore, -⟩ := hStops
        simp at hMore
  | cons segment more ih =>
      constructor
      · intro hFollow
        cases value with
        | object entries =>
            simp only [follow] at hFollow
            cases hNext : Json.lookup? segment entries with
            | none =>
                rw [hNext] at hFollow
                cases hFollow
            | some next =>
                rw [hNext] at hFollow
                obtain ⟨before, other, after, stop, hMore, hLeads, hStop⟩ := ih.mp hFollow
                exact ⟨segment :: before, other, after, stop, by rw [hMore, List.cons_append],
                  .field hNext hLeads, hStop⟩
        | null => cases hFollow
        | bool _ | integer _ | float _ | text _ | array _ =>
            cases hFollow
            exact ⟨[], segment, more, _, rfl, .here _, trivial, rfl⟩
      · intro hStops
        obtain ⟨before, other, after, stop, hMore, hLeads, hStop, rfl⟩ := hStops
        cases hLeads with
        | here _ =>
            cases hMore
            cases value with
            | object _ | null => exact hStop.elim
            | bool _ | integer _ | float _ | text _ | array _ => rfl
        | @field first before entries next last hNext hRest =>
            rw [List.cons_append, List.cons.injEq] at hMore
            obtain ⟨rfl, hMore⟩ := hMore
            simp only [follow, hNext]
            exact ih.mpr ⟨before, other, after, stop, hMore, hRest, hStop, rfl⟩

theorem resolve_eq_some_iff {record actual : Value} {path : String} :
    resolve record path = .ok (some actual) ↔
      Leads (segments path) record actual ∧ actual ≠ .null :=
  follow_eq_some_iff

theorem resolve_eq_error_iff {record : Value} {path : String} {error : EvalError} :
    resolve record path = .error error ↔
      ∃ segment stop, StopsAt record path segment stop ∧
        error = .unresolvedField path segment stop.kind := by
  rw [resolve, follow_eq_error_iff]
  constructor
  · intro hFollow
    obtain ⟨before, segment, after, stop, hPath, hLeads, hStop, hError⟩ := hFollow
    exact ⟨segment, stop, ⟨before, after, hPath, hLeads, hStop⟩, hError⟩
  · intro hStops
    obtain ⟨segment, stop, ⟨before, after, hPath, hLeads, hStop⟩, hError⟩ := hStops
    exact ⟨before, segment, after, stop, hPath, hLeads, hStop, hError⟩

theorem exists_resolve_iff {record : Value} {path : String} :
    (∃ actual, resolve record path = .ok actual) ↔
      ∀ segment stop, ¬ StopsAt record path segment stop := by
  constructor
  · intro hValue segment stop hStops
    obtain ⟨actual, hActual⟩ := hValue
    have hError := resolve_eq_error_iff.mpr ⟨segment, stop, hStops, rfl⟩
    rw [hActual] at hError
    cases hError
  · intro hNowhere
    cases hResolve : resolve record path with
    | ok actual => exact ⟨actual, rfl⟩
    | error error =>
        obtain ⟨segment, stop, hStops, -⟩ := resolve_eq_error_iff.mp hResolve
        exact absurd hStops (hNowhere segment stop)

end Eval

/-! ### Operators and values -/

theorem Operator.ofToken?_eq_none_iff {token : String} :
    ofToken? token = none ↔ token ∉ all.map Operator.token := by
  rw [ofToken?, List.find?_eq_none, List.mem_map, not_exists]
  apply forall_congr'
  intro operator
  rw [not_and, decide_eq_true_eq]

def Atom.IsSingle : Atom → Prop
  | .bool _ | .integer _ | .float _ => True
  | .text _ | .list _ => False

namespace Evaluator

variable {evaluator : Evaluator} {actual : Value} {expected : Atom} {error : EvalError}

def ordering : List Operator :=
  [.greaterThan, .greaterThanOrEqual, .lessThan, .lessThanOrEqual]

theorem among_eq_error_iff :
    among actual expected = .error error ↔
      expected.IsSingle ∧ error = .invalidInOperand expected.display := by
  cases expected with
  | text _ | list _ =>
      constructor
      · intro hAmong
        cases hAmong
      · intro hSplit
        obtain ⟨hSingle, -⟩ := hSplit
        exact hSingle.elim
  | bool _ | integer _ | float _ =>
      constructor
      · intro hAmong
        cases hAmong
        exact ⟨trivial, rfl⟩
      · intro hError
        obtain ⟨-, rfl⟩ := hError
        rfl

/-- Two values cannot be put in order exactly when only the first is a date. -/
theorem order_eq_error_iff :
    evaluator.order actual expected = .error error ↔
      ∃ text moment, actual = .text text ∧ evaluator.moment? text.toList = some moment ∧
        evaluator.moment? expected.write = none ∧
          error = .invalidDate expected.display evaluator.format := by
  unfold order
  constructor
  · intro hOrder
    cases hLeft : evaluator.momentOfValue? actual with
    | none =>
        rw [hLeft] at hOrder
        cases hOrder
    | some left =>
        rw [hLeft] at hOrder
        simp only at hOrder
        cases actual with
        | text text =>
            cases hRight : evaluator.moment? expected.write with
            | none =>
                rw [hRight] at hOrder
                cases hOrder
                exact ⟨text, left, rfl, hLeft, rfl, rfl⟩
            | some right =>
                rw [hRight] at hOrder
                cases hOrder
        | null | bool _ | integer _ | float _ | array _ | object _ => cases hLeft
  · intro hDates
    obtain ⟨text, moment, rfl, hLeft, hRight, rfl⟩ := hDates
    simp only [momentOfValue?, hLeft, hRight]

theorem ordered_eq_error_iff {accepted : List Ordering} :
    evaluator.ordered accepted actual expected = .error error ↔
      evaluator.order actual expected = .error error := by
  unfold ordered
  cases evaluator.order actual expected with
  | error other => simp
  | ok order => cases order <;> simp

theorem holds_eq_error_iff {operator : Operator} :
    evaluator.holds operator actual expected = .error error ↔
      operator = .isIn ∧ among actual expected = .error error ∨
        operator ∈ ordering ∧ evaluator.order actual expected = .error error := by
  cases operator with
  | isIn => simp [holds, ordering]
  | greaterThan | greaterThanOrEqual | lessThan | lessThanOrEqual =>
      rw [holds, ordered_eq_error_iff]
      simp [ordering]
  | equal | notEqual | isNull | isNotNull | isEmpty | isNotEmpty | contains | notContains
  | startsWith | endsWith => simp [holds, ordering]

end Evaluator

/-! ### The causes of errors -/

/-- The causes for which a comparison has no answer on a record, each with its error; a
cause counts only where none in front of it does. -/
inductive Comparison.Fault (evaluator : Evaluator) (record : Value) (comparison : Comparison) :
    EvalError → Prop where
  | path {segment : String} {stop : Value}
      (hStops : Eval.StopsAt record comparison.field segment stop) :
      Fault evaluator record comparison
        (.unresolvedField comparison.field segment stop.kind)
  | operator (hPath : ∀ segment stop, ¬ Eval.StopsAt record comparison.field segment stop)
      (hUnknown : comparison.operator ∉ Operator.all.map Operator.token) :
      Fault evaluator record comparison (.unsupportedOperator comparison.operator)
  | operand {actual : Value}
      (hField : Eval.Leads (Eval.segments comparison.field) record actual)
      (hPresent : actual ≠ .null) (hOperator : comparison.operator = "in")
      (hSingle : comparison.value.IsSingle) :
      Fault evaluator record comparison (.invalidInOperand comparison.value.display)
  | date {text : String} {moment : Date.Moment}
      (hField : Eval.Leads (Eval.segments comparison.field) record (.text text))
      (hOperator : comparison.operator ∈ ["gt", "gte", "lt", "lte"])
      (hDate : evaluator.moment? text.toList = some moment)
      (hNoDate : evaluator.moment? comparison.value.write = none) :
      Fault evaluator record comparison
        (.invalidDate comparison.value.display evaluator.format)

namespace Evaluator

variable {evaluator : Evaluator} {record : Value} {error : EvalError}

theorem fault_of_holds {comparison : Comparison} {operator : Operator} {actual : Value}
    (hField : Eval.resolve record comparison.field = .ok (some actual))
    (hOperator : operator.token = comparison.operator)
    (hHolds : evaluator.holds operator actual comparison.value = .error error) :
    comparison.Fault evaluator record error := by
  obtain ⟨hLeads, hPresent⟩ := Eval.resolve_eq_some_iff.mp hField
  rcases holds_eq_error_iff.mp hHolds with ⟨rfl, hAmong⟩ | ⟨hOrdering, hOrder⟩
  · obtain ⟨hSingle, rfl⟩ := among_eq_error_iff.mp hAmong
    exact .operand hLeads hPresent hOperator.symm hSingle
  · obtain ⟨text, moment, rfl, hDate, hNoDate, rfl⟩ := order_eq_error_iff.mp hOrder
    have hToken : comparison.operator ∈ ["gt", "gte", "lt", "lte"] := by
      rw [← hOperator]
      exact List.mem_map_of_mem (f := Operator.token) hOrdering
    exact .date hLeads hToken hDate hNoDate

theorem test_of_holds {comparison : Comparison} {operator : Operator} {actual : Value}
    (hField : Eval.resolve record comparison.field = .ok (some actual))
    (hOperator : operator.token = comparison.operator) :
    evaluator.test record comparison.filter =
      evaluator.holds operator actual comparison.value := by
  rw [Comparison.filter, test, testLeaf, hField, ← hOperator, Operator.ofToken?_token]

/-- A comparison fails with an error exactly when there is a cause for it. -/
theorem test_comparison_eq_error_iff {comparison : Comparison} :
    evaluator.test record comparison.filter = .error error ↔
      comparison.Fault evaluator record error := by
  constructor
  · intro hTest
    rw [Comparison.filter, test, testLeaf] at hTest
    cases hField : Eval.resolve record comparison.field with
    | error other =>
        rw [hField] at hTest
        cases hTest
        obtain ⟨segment, stop, hStops, rfl⟩ := Eval.resolve_eq_error_iff.mp hField
        exact .path hStops
    | ok actual =>
        rw [hField] at hTest
        simp only at hTest
        cases hFound : Operator.ofToken? comparison.operator with
        | none =>
            rw [hFound] at hTest
            cases hTest
            exact .operator (Eval.exists_resolve_iff.mp ⟨actual, hField⟩)
              (Operator.ofToken?_eq_none_iff.mp hFound)
        | some operator =>
            rw [hFound] at hTest
            cases actual with
            | none => cases hTest
            | some actual =>
                exact fault_of_holds hField (Operator.token_of_ofToken? hFound) hTest
  · intro hFault
    cases hFault with
    | path hStops =>
        rw [Comparison.filter, test, testLeaf,
          Eval.resolve_eq_error_iff.mpr ⟨_, _, hStops, rfl⟩]
    | operator hPath hUnknown =>
        obtain ⟨actual, hField⟩ := Eval.exists_resolve_iff.mpr hPath
        rw [Comparison.filter, test, testLeaf, hField,
          Operator.ofToken?_eq_none_iff.mpr hUnknown]
    | operand hField hPresent hOperator hSingle =>
        have hResolve := Eval.resolve_eq_some_iff.mpr ⟨hField, hPresent⟩
        have hToken : Operator.isIn.token = comparison.operator := hOperator.symm
        rw [test_of_holds hResolve hToken]
        exact among_eq_error_iff.mpr ⟨hSingle, rfl⟩
    | date hField hOperator hDate hNoDate =>
        have hResolve := Eval.resolve_eq_some_iff.mpr ⟨hField, by rintro ⟨⟩⟩
        obtain ⟨operator, hOrdering, hToken⟩ :
            ∃ operator ∈ ordering, operator.token = comparison.operator := by
          simpa [ordering, Operator.token, eq_comm] using hOperator
        rw [test_of_holds hResolve hToken]
        have hOrder := order_eq_error_iff.mpr ⟨_, _, rfl, hDate, hNoDate, rfl⟩
        exact holds_eq_error_iff.mpr (.inr ⟨hOrdering, hOrder⟩)

end Evaluator

/-! ### Trees -/

namespace Filter

mutual

/-- The truth of a tree whose comparisons have given answers: every group asks all its
members. -/
def valueWith (answers : Comparison → Bool) : Filter → Bool
  | .leaf field operator value => answers ⟨field, operator, value⟩
  | .group .and children => allWith answers children
  | .group .or children => anyWith answers children

def allWith (answers : Comparison → Bool) : List Filter → Bool
  | [] => true
  | child :: children => child.valueWith answers && allWith answers children

def anyWith (answers : Comparison → Bool) : List Filter → Bool
  | [] => false
  | child :: children => child.valueWith answers || anyWith answers children

end

end Filter

namespace Evaluator

open RecordFilter.Filter (comparisons comparisonsIn valueWith allWith anyWith)

variable (evaluator : Evaluator) (record : Value)

mutual

theorem exists_comparison_of_test : ∀ (filter : Filter) {error : EvalError},
    evaluator.test record filter = .error error →
      ∃ comparison ∈ filter.comparisons, evaluator.test record comparison.filter = .error error
  | .leaf field operator value, error, hTest => by
      rw [comparisons]
      exact ⟨⟨field, operator, value⟩, List.mem_singleton_self _, hTest⟩
  | .group .and children, error, hTest => by
      rw [test] at hTest
      exact exists_comparison_of_testAll children hTest
  | .group .or children, error, hTest => by
      rw [test] at hTest
      exact exists_comparison_of_testAny children hTest

theorem exists_comparison_of_testAll : ∀ (children : List Filter) {error : EvalError},
    evaluator.testAll record children = .error error →
      ∃ comparison ∈ comparisonsIn children,
        evaluator.test record comparison.filter = .error error
  | [], error, hTest => by
      rw [testAll] at hTest
      cases hTest
  | child :: children, error, hTest => by
      rw [testAll] at hTest
      rw [comparisonsIn]
      cases hChild : evaluator.test record child with
      | error other =>
          rw [hChild] at hTest
          cases hTest
          obtain ⟨comparison, hMember, hFails⟩ := exists_comparison_of_test child hChild
          exact ⟨comparison, List.mem_append_left _ hMember, hFails⟩
      | ok held =>
          rw [hChild] at hTest
          cases held with
          | false => cases hTest
          | true =>
              obtain ⟨comparison, hMember, hFails⟩ :=
                exists_comparison_of_testAll children hTest
              exact ⟨comparison, List.mem_append_right _ hMember, hFails⟩

theorem exists_comparison_of_testAny : ∀ (children : List Filter) {error : EvalError},
    evaluator.testAny record children = .error error →
      ∃ comparison ∈ comparisonsIn children,
        evaluator.test record comparison.filter = .error error
  | [], error, hTest => by
      rw [testAny] at hTest
      cases hTest
  | child :: children, error, hTest => by
      rw [testAny] at hTest
      rw [comparisonsIn]
      cases hChild : evaluator.test record child with
      | error other =>
          rw [hChild] at hTest
          cases hTest
          obtain ⟨comparison, hMember, hFails⟩ := exists_comparison_of_test child hChild
          exact ⟨comparison, List.mem_append_left _ hMember, hFails⟩
      | ok held =>
          rw [hChild] at hTest
          cases held with
          | true => cases hTest
          | false =>
              obtain ⟨comparison, hMember, hFails⟩ :=
                exists_comparison_of_testAny children hTest
              exact ⟨comparison, List.mem_append_right _ hMember, hFails⟩

end

mutual

theorem test_of_answers {answers : Comparison → Bool} : ∀ filter : Filter,
    (∀ comparison ∈ filter.comparisons,
      evaluator.test record comparison.filter = .ok (answers comparison)) →
        evaluator.test record filter = .ok (filter.valueWith answers)
  | .leaf field operator value, hAnswers => by
      rw [comparisons, List.forall_mem_singleton] at hAnswers
      exact hAnswers
  | .group .and children, hAnswers => by
      rw [test, valueWith]
      exact testAll_of_answers children hAnswers
  | .group .or children, hAnswers => by
      rw [test, valueWith]
      exact testAny_of_answers children hAnswers

theorem testAll_of_answers {answers : Comparison → Bool} : ∀ children : List Filter,
    (∀ comparison ∈ comparisonsIn children,
      evaluator.test record comparison.filter = .ok (answers comparison)) →
        evaluator.testAll record children = .ok (allWith answers children)
  | [], _ => by rw [testAll, allWith]
  | child :: children, hAnswers => by
      rw [comparisonsIn, List.forall_mem_append] at hAnswers
      rw [testAll, allWith, test_of_answers child hAnswers.1]
      cases child.valueWith answers with
      | false => rfl
      | true => exact testAll_of_answers children hAnswers.2

theorem testAny_of_answers {answers : Comparison → Bool} : ∀ children : List Filter,
    (∀ comparison ∈ comparisonsIn children,
      evaluator.test record comparison.filter = .ok (answers comparison)) →
        evaluator.testAny record children = .ok (anyWith answers children)
  | [], _ => by rw [testAny, anyWith]
  | child :: children, hAnswers => by
      rw [comparisonsIn, List.forall_mem_append] at hAnswers
      rw [testAny, anyWith, test_of_answers child hAnswers.1]
      cases child.valueWith answers with
      | true => rfl
      | false => exact testAny_of_answers children hAnswers.2

end

def answerOf (comparison : Comparison) : Bool :=
  match evaluator.test record comparison.filter with
  | .ok held => held
  | .error _ => false

theorem test_eq_answerOf {comparison : Comparison}
    (hAnswer : ∀ error, evaluator.test record comparison.filter ≠ .error error) :
    evaluator.test record comparison.filter = .ok (evaluator.answerOf record comparison) := by
  unfold answerOf
  cases hTest : evaluator.test record comparison.filter with
  | error error => exact absurd hTest (hAnswer error)
  | ok held => rfl

/-- A comparison fails with an error exactly when it has the fault of that error.  A tree
fails with the error of one of its comparisons only, and when no comparison fails it has
the truth that the answers of its comparisons give it.  No filter fails because of the
format of dates. -/
theorem test_error_iff_fault (evaluator : Evaluator) (record : Value) :
    (∀ (comparison : Comparison) (error : EvalError),
      evaluator.test record comparison.filter = .error error ↔
        comparison.Fault evaluator record error) ∧
    (∀ (filter : Filter) (error : EvalError), evaluator.test record filter = .error error →
      ∃ comparison ∈ filter.comparisons,
        evaluator.test record comparison.filter = .error error) ∧
    (∀ filter : Filter,
      (∀ comparison ∈ filter.comparisons,
        ∀ error, evaluator.test record comparison.filter ≠ .error error) →
      ∃ answers : Comparison → Bool,
        (∀ comparison ∈ filter.comparisons,
          evaluator.test record comparison.filter = .ok (answers comparison)) ∧
        evaluator.test record filter = .ok (filter.valueWith answers)) ∧
    ∀ (filter : Filter) (format : String) (fault : Date.PatternFault),
      evaluator.test record filter ≠ .error (.dateFormat format fault) := by
  refine ⟨fun _ _ => test_comparison_eq_error_iff,
    fun filter _ => exists_comparison_of_test evaluator record filter, ?_, ?_⟩
  · intro filter hAnswers
    have hGiven : ∀ comparison ∈ filter.comparisons,
        evaluator.test record comparison.filter =
          .ok (evaluator.answerOf record comparison) :=
      fun comparison hMember => test_eq_answerOf evaluator record (hAnswers comparison hMember)
    exact ⟨evaluator.answerOf record, hGiven, test_of_answers evaluator record filter hGiven⟩
  · intro filter format fault hTest
    obtain ⟨comparison, -, hFails⟩ := exists_comparison_of_test evaluator record filter hTest
    have hFault := test_comparison_eq_error_iff.mp hFails
    cases hFault

/-- A date that is compared with a text that is none, behind two comparisons that have
answers; a tree that reads the same fields and has an answer. -/
theorem test_error_iff_fault_date :
    let evaluator : Evaluator := ⟨"[year]-[ordinal]",
      [.component (.year .zero .full false false), .literal [45],
        .component (.ordinal .zero)]⟩
    let record : Value := .object [("at", .text "2024-060"), ("to", .null)]
    let filter : Filter := .all [.leaf "at" "contains" (.text "-"),
      .any [.leaf "to" "isnotnull" (.text ""), .leaf "at" "gt" (.text "soon")]]
    let other : Filter := .any [.leaf "to" "gt" (.text "soon"),
      .leaf "at" "gt" (.text "2023-365")]
    (∃ comparison ∈ filter.comparisons,
      comparison.Fault evaluator record (.invalidDate "soon" "[year]-[ordinal]")) ∧
    (∀ comparison ∈ other.comparisons,
      ∀ error, evaluator.test record comparison.filter ≠ .error error) ∧
    ∃ answers : Comparison → Bool,
      (∀ comparison ∈ other.comparisons,
        evaluator.test record comparison.filter = .ok (answers comparison)) ∧
      evaluator.test record other = .ok (other.valueWith answers) := by
  intro evaluator record filter other
  obtain ⟨hFault, hSome, hAll, -⟩ := test_error_iff_fault evaluator record
  have hTest : evaluator.test record filter =
      .error (.invalidDate "soon" "[year]-[ordinal]") := by
    cbv
  have hAnswers : ∀ comparison ∈ other.comparisons,
      ∃ held, evaluator.test record comparison.filter = .ok held := by
    have hFirst : evaluator.test record (.leaf "to" "gt" (.text "soon")) = .ok false := by
      cbv
    have hSecond : evaluator.test record (.leaf "at" "gt" (.text "2023-365")) = .ok true := by
      cbv
    intro comparison hMember
    rcases List.mem_cons.mp hMember with rfl | hMember
    · exact ⟨false, hFirst⟩
    · obtain rfl := List.mem_singleton.mp hMember
      exact ⟨true, hSecond⟩
  have hNone : ∀ comparison ∈ other.comparisons,
      ∀ error, evaluator.test record comparison.filter ≠ .error error := by
    intro comparison hMember error hError
    obtain ⟨held, hHeld⟩ := hAnswers comparison hMember
    rw [hHeld] at hError
    cases hError
  refine ⟨?_, hNone, hAll other hNone⟩
  obtain ⟨comparison, hMember, hFails⟩ := hSome filter _ hTest
  exact ⟨comparison, hMember, (hFault comparison _).mp hFails⟩

end Evaluator
end RecordFilter

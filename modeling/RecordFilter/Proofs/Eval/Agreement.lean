/-
Equality and order of a record value and a text.

Equality and order are two decisions.  Where the record holds no date they agree: the value
and the text are equal exactly when they are tied, except that a number also equals a text
that spells another number if the difference of the two, rounded as floating numbers are, is
less than `epsilon`.  Such a text is before or behind the number as well.

Dates are ordered as moments, but are equal only as texts, so two spellings of one moment
are tied and not equal.
-/
import Mathlib
import RecordFilter.Proofs.Date.Moments
import RecordFilter.Proofs.Eval.Duality

namespace RecordFilter

open Json (Value)

/-! ### Close numbers -/

namespace Decimal

open Float.Model (Format UnpackedFloat)
open Float.Model.UnpackedFloat

variable {u v : UnpackedFloat}

theorem exists_sub_eq_zero (hFinite : u.isFinite = true) (hTie : u.compare v = some .eq) :
    ∃ sign, sub Format.binary64 u v = .zero sign := by
  cases u with
  | notANumber | infinity _ => cases hFinite
  | zero sign =>
      cases v with
      | notANumber => cases hTie
      | infinity other => cases other <;> cases hTie
      | finite other _ _ _ => cases other <;> cases hTie
      | zero other => cases sign <;> cases other <;> exact ⟨_, rfl⟩
  | finite sign significand exponent hPositive =>
      cases v with
      | notANumber => cases sign <;> cases hTie
      | infinity other => cases sign <;> cases other <;> cases hTie
      | zero _ => cases sign <;> cases hTie
      | finite other significand' exponent' hPositive' =>
          have hSame : sign = other ∧ exponent = exponent' ∧ significand = significand' := by
            cases sign <;> cases other <;>
              simp_all [UnpackedFloat.compare, Ordering.then_eq_eq]
          obtain ⟨rfl, rfl, rfl⟩ := hSame
          refine ⟨.positive, ?_⟩
          simp only [sub, Int.sub_self]
          rfl

theorem sub_notANumber (u : UnpackedFloat) :
    sub Format.binary64 u .notANumber = .notANumber := by
  cases u <;> rfl

theorem repacked_notANumber : repacked .notANumber = .notANumber := rfl

end Decimal

namespace Eval

open Decimal (unpacked)

variable {x y : Float}

theorem close_of_compare (hFinite : (unpacked x).isFinite = true)
    (hTie : (unpacked x).compare (unpacked y) = some .eq) : close x y = true := by
  obtain ⟨sign, hSub⟩ := Decimal.exists_sub_eq_zero hFinite hTie
  apply decide_eq_true
  rw [lt_iff_compare, Decimal.unpacked_abs, Decimal.unpacked_sub, hSub, Decimal.repacked_zero]
  change (Decimal.repacked (.zero .positive)).compare (unpacked epsilon) = some .lt
  rw [Decimal.repacked_zero]
  rfl

theorem ne_notANumber_of_close (hClose : close x y = true) : unpacked y ≠ .notANumber := by
  intro hNaN
  have hLess := of_decide_eq_true hClose
  rw [lt_iff_compare, Decimal.unpacked_abs, Decimal.unpacked_sub, hNaN, Decimal.sub_notANumber,
    Decimal.repacked_notANumber] at hLess
  cases hLess

theorem orderNumbers?_eq_tie_iff : orderNumbers? x y = some .eq ↔ (x == y) = true := by
  rw [orderNumbers?_eq_compare, beq_eq_compare, beq_iff_eq]

/-! ### A value and a text -/

variable {actual : Value} {t : String}

/-- A text spells another number than the record holds, and their difference, rounded to a
floating number, is less than `epsilon`; the two are not both taken as whole numbers. -/
def NearlyEqual (actual : Value) (t : String) : Prop :=
  (integer? actual = none ∨ Decimal.readInteger128? t.toList = none) ∧
    ∃ x y, number? actual = some x ∧ Decimal.readFloat? t.toList = some y ∧
      close x y = true ∧ (x == y) = false

theorem orderValues?_of_numbers
    (hFloating : integer? actual = none ∨ Decimal.readInteger128? t.toList = none)
    (hNumber : number? actual = some x) (hRead : Decimal.readFloat? t.toList = some y) :
    orderValues? actual (.text t) = orderNumbers? x y := by
  unfold orderValues?
  simp only [integerOfAtom?, numberOfAtom?, hNumber, hRead]
  rcases hFloating with hNone | hNone
  · simp only [hNone]
  · simp only [hNone]
    cases integer? actual <;> rfl

theorem tied_or_nearlyEqual_of_closeToAtom
    (hFloating : integer? actual = none ∨ Decimal.readInteger128? t.toList = none)
    (hNumber : number? actual = some x) (hClose : closeToAtom x (.text t) = true) :
    orderValues? actual (.text t) = some .eq ∨ NearlyEqual actual t := by
  unfold closeToAtom at hClose
  cases hRead : Decimal.readFloat? t.toList with
  | none =>
      simp only [numberOfAtom?, hRead] at hClose
      cases hClose
  | some y =>
      simp only [numberOfAtom?, hRead] at hClose
      cases hSame : x == y with
      | true =>
          left
          rw [orderValues?_of_numbers hFloating hNumber hRead]
          exact orderNumbers?_eq_tie_iff.mpr hSame
      | false => exact .inr ⟨hFloating, x, y, hNumber, hRead, hClose, hSame⟩

theorem tied_of_text (hNumber : number? actual = none) (hText : text actual = t.toList) :
    orderValues? actual (.text t) = some .eq := by
  have hInteger : integer? actual = none := by
    cases actual <;> first | rfl | cases hNumber
  unfold orderValues?
  simp only [hInteger, hNumber, hText]
  exact congrArg some ((Text.order_eq_iff t.toList t.toList).mpr rfl)

theorem text_of_truth? {b : Bool} (hTruth : truth? t = some b) :
    text (.bool b) = t.toList := by
  unfold truth? at hTruth
  split at hTruth
  · rename_i hTrue
    cases hTruth
    rw [hTrue]
    rfl
  · split at hTruth
    · rename_i hFalse
      cases hTruth
      rw [hFalse]
      rfl
    · cases hTruth

theorem tied_or_nearlyEqual_of_equals (hEqual : equals actual (.text t) = true) :
    orderValues? actual (.text t) = some .eq ∨ NearlyEqual actual t := by
  cases actual with
  | integer n =>
      rw [equals_integer] at hEqual
      cases hRead : Decimal.readInteger128? t.toList with
      | some m =>
          simp only [integerOfAtom?, hRead] at hEqual
          left
          unfold orderValues?
          simp only [integer?, integerOfAtom?, hRead]
          rw [beq_iff_eq.mp hEqual]
          exact congrArg some (Int.compare_eq_eq.mpr rfl)
      | none =>
          simp only [integerOfAtom?, hRead] at hEqual
          exact tied_or_nearlyEqual_of_closeToAtom (.inr hRead) rfl hEqual
  | float x =>
      rw [equals_float] at hEqual
      exact tied_or_nearlyEqual_of_closeToAtom (.inl rfl) rfl hEqual
  | bool b =>
      have hTruth : truth? t = some b := by simpa [equals, integer?] using hEqual
      exact .inl (tied_of_text rfl (text_of_truth? hTruth))
  | text s =>
      have hSame : s = t := by simpa [equals, integer?] using hEqual
      rw [hSame]
      exact .inl (tied_of_text rfl rfl)
  -- the rest is equal by its text only
  | null | array _ | object _ =>
      left
      apply tied_of_text rfl
      simpa [equals, integer?, Atom.write] using hEqual

theorem NearlyEqual.equals (hNear : NearlyEqual actual t) :
    equals actual (.text t) = true := by
  obtain ⟨hFloating, x, y, hNumber, hRead, hClose, -⟩ := hNear
  have hCloseTo : closeToAtom x (.text t) = true := by
    unfold closeToAtom
    simp only [numberOfAtom?, hRead, hClose]
  cases actual with
  | integer n =>
      cases hNumber
      have hNone : integerOfAtom? (.text t) = none := by
        rcases hFloating with hLeft | hRight
        · cases hLeft
        · exact hRight
      rw [equals_integer, hNone]
      exact hCloseTo
  | float z =>
      cases hNumber
      rw [equals_float]
      exact hCloseTo
  | null | bool _ | text _ | array _ | object _ => cases hNumber

theorem NearlyEqual.order (hNear : NearlyEqual actual t) :
    orderValues? actual (.text t) = some .lt ∨ orderValues? actual (.text t) = some .gt := by
  obtain ⟨hFloating, x, y, hNumber, hRead, hClose, hOther⟩ := hNear
  rw [orderValues?_of_numbers hFloating hNumber hRead]
  cases hOrder : orderNumbers? x y with
  | none =>
      rw [orderNumbers?_eq_compare, Decimal.compare_eq_none_iff] at hOrder
      rcases hOrder with hLeft | hRight
      · exact absurd hLeft (unpacked_ne_of_number? hNumber)
      · exact absurd hRight (ne_notANumber_of_close hClose)
  | some order =>
      cases order with
      | lt => exact .inl rfl
      | gt => exact .inr rfl
      | eq =>
          rw [orderNumbers?_eq_tie_iff, hOther] at hOrder
          cases hOrder

theorem equals_string (s t : String) : equals (.text s) (.text t) = (s == t) := by
  simp only [equals, integer?]

end Eval

namespace Evaluator

open Eval (NearlyEqual)

variable {evaluator : Evaluator} {record actual : Value} {field s t : String}

theorem test_operator (hField : Eval.resolve record field = .ok (some actual))
    (operator : Operator) (value : Atom) :
    evaluator.test record (.leaf field operator.token value) =
      evaluator.holds operator actual value :=
  @test_of_holds evaluator record ⟨field, operator.token, value⟩ operator actual hField rfl

theorem test_orderings (hField : Eval.resolve record field = .ok (some actual)) (value : Atom) :
    evaluator.test record (.leaf field "gt" value) = evaluator.ordered [.gt] actual value ∧
      evaluator.test record (.leaf field "gte" value) =
        evaluator.ordered [.gt, .eq] actual value ∧
      evaluator.test record (.leaf field "lt" value) = evaluator.ordered [.lt] actual value ∧
      evaluator.test record (.leaf field "lte" value) =
        evaluator.ordered [.lt, .eq] actual value :=
  ⟨test_operator hField .greaterThan value, test_operator hField .greaterThanOrEqual value,
    test_operator hField .lessThan value, test_operator hField .lessThanOrEqual value⟩

theorem ordered_eq_true_iff {accepted : List Ordering} {value : Atom} :
    evaluator.ordered accepted actual value = .ok true ↔
      ∃ order ∈ accepted, evaluator.order actual value = .ok (some order) := by
  unfold ordered
  cases evaluator.order actual value with
  | error error => simp
  | ok order => cases order <;> simp

theorem order_dates {left right : Date.Moment}
    (hLeft : evaluator.moment? s.toList = some left)
    (hRight : evaluator.moment? t.toList = some right) :
    evaluator.order (.text s) (.text t) = .ok (some (left.order right)) := by
  simp only [order, momentOfValue?, Atom.write, hLeft, hRight]

theorem momentOfValue?_of_number {x : Float} (hNumber : Eval.number? actual = some x) :
    evaluator.momentOfValue? actual = none := by
  cases actual <;> first | rfl | cases hNumber

/-- A value equals a text only if they are tied, as dates or otherwise, or are nearly equal
numbers. -/
theorem order_of_equals (hEqual : Eval.equals actual (.text t) = true) :
    evaluator.order actual (.text t) = .ok (some .eq) ∨ NearlyEqual actual t := by
  cases hMoment : evaluator.momentOfValue? actual with
  | some left =>
      cases actual with
      | text s =>
          have hSame : s = t := by
            rwa [Eval.equals_string, beq_iff_eq] at hEqual
          subst hSame
          have hDate : evaluator.moment? s.toList = some left := hMoment
          left
          rw [order_dates hDate hDate, Date.Moment.order_eq_iff.mpr rfl]
      | null | bool _ | integer _ | float _ | array _ | object _ => cases hMoment
  | none =>
      have hOrder : evaluator.order actual (.text t) =
          .ok (Eval.orderValues? actual (.text t)) := by
        simp only [order, hMoment]
      rw [hOrder, Except.ok.injEq]
      exact Eval.tied_or_nearlyEqual_of_equals hEqual

theorem order_of_nearlyEqual (hNear : NearlyEqual actual t) :
    evaluator.order actual (.text t) = .ok (some .lt) ∨
      evaluator.order actual (.text t) = .ok (some .gt) := by
  have hApart := hNear.order
  obtain ⟨-, x, -, hNumber, -⟩ := hNear
  simp only [order, momentOfValue?_of_number hNumber, Except.ok.injEq]
  exact hApart

/-- No value is both before and behind a text.  A value that equals a text is before or
behind it exactly if the two are nearly equal numbers, and is tied with it otherwise. -/
theorem equal_and_apart_iff_nearlyEqual (evaluator : Evaluator) {record actual : Value}
    {field t : String} (hField : Eval.resolve record field = .ok (some actual)) :
    let holds (operator : String) : Prop :=
      evaluator.test record (.leaf field operator (.text t)) = .ok true
    ¬ (holds "lt" ∧ holds "gt") ∧
      (holds "eq" ∧ (holds "lt" ∨ holds "gt") ↔ NearlyEqual actual t) ∧
      (holds "eq" → ¬ NearlyEqual actual t →
        holds "gte" ∧ holds "lte" ∧ ¬ holds "gt" ∧ ¬ holds "lt") := by
  have hEquals : evaluator.test record (.leaf field "eq" (.text t)) =
      .ok (Eval.equals actual (.text t)) := test_operator hField .equal _
  obtain ⟨hGreater, hNotLess, hLess, hNotGreater⟩ :=
    @test_orderings evaluator record actual field hField (.text t)
  simp only [hEquals, hLess, hGreater, hNotLess, hNotGreater, Except.ok.injEq,
    ordered_eq_true_iff, List.mem_cons, List.not_mem_nil, or_false, exists_eq_left,
    exists_eq_or_imp]
  refine ⟨?_, ?_, ?_⟩
  · rintro ⟨hBefore, hBehind⟩
    rw [hBefore] at hBehind
    cases hBehind
  · constructor
    · rintro ⟨hEqual, hApart⟩
      rcases @order_of_equals evaluator actual t hEqual with hTied | hNear
      · rw [hTied] at hApart
        rcases hApart with hBefore | hBehind
        · cases hBefore
        · cases hBehind
      · exact hNear
    · intro hNear
      exact ⟨hNear.equals, order_of_nearlyEqual hNear⟩
  · intro hEqual hNotNear
    have hTied := (@order_of_equals evaluator actual t hEqual).resolve_right hNotNear
    rw [hTied]
    simp

theorem equal_and_apart_iff_nearlyEqual_numbers :
    let evaluator : Evaluator := ⟨"[year]", [.component (.year .zero .full false false)]⟩
    let one : Value := .integer ⟨1, by decide, by decide⟩
    let half : Value := .float ⟨2.5, by decide +kernel⟩
    let record : Value := .object [("n", one), ("x", half)]
    Eval.NearlyEqual one "0.9999999999999999" ∧ ¬ Eval.NearlyEqual half "2.50" ∧
      evaluator.test record (.leaf "x" "gte" (.text "2.50")) = .ok true ∧
      ¬ evaluator.test record (.leaf "x" "gt" (.text "2.50")) = .ok true := by
  intro evaluator one half record
  have hOne : Eval.resolve record "n" = .ok (some one) := by cbv
  have hHalf : Eval.resolve record "x" = .ok (some half) := by cbv
  obtain ⟨-, hNear, -⟩ := @equal_and_apart_iff_nearlyEqual evaluator record one "n"
    "0.9999999999999999" hOne
  obtain ⟨-, hApart, hTied⟩ := @equal_and_apart_iff_nearlyEqual evaluator record half "x"
    "2.50" hHalf
  have hEqual : evaluator.test record (.leaf "x" "eq" (.text "2.50")) = .ok true := by
    decide +kernel
  have hFar : ¬ Eval.NearlyEqual half "2.50" := by
    rw [← hApart]
    decide +kernel
  have hTies := hTied hEqual hFar
  exact ⟨hNear.mp (by decide +kernel), hFar, hTies.1, hTies.2.2.1⟩

/-- The number one equals a text that it is greater than. -/
theorem equal_and_greater_near_one :
    let evaluator : Evaluator := ⟨"[year]", [.component (.year .zero .full false false)]⟩
    let one : Value := .integer ⟨1, by decide, by decide⟩
    let record : Value := .object [("n", one)]
    let holds (operator : String) : Prop :=
      evaluator.test record (.leaf "n" operator (.text "0.9999999999999999")) = .ok true
    Eval.resolve record "n" = .ok (some one) ∧ holds "eq" ∧ holds "gt" ∧
      evaluator.test record (.leaf "n" "lt" (.text "0.9999999999999999")) = .ok false := by
  intro evaluator one record holds
  have hField : Eval.resolve record "n" = .ok (some one) := by cbv
  exact ⟨hField, by decide +kernel, by decide +kernel, by decide +kernel⟩

/-- Dates are equal only as texts.  The answers are those for the moments that they denote
exactly if no two spellings of one moment are compared. -/
theorem dates_equal_iff_same_text (evaluator : Evaluator) {record : Value}
    {field s t : String} {left right : Date.Moment}
    (hField : Eval.resolve record field = .ok (some (.text s)))
    (hLeft : evaluator.moment? s.toList = some left)
    (hRight : evaluator.moment? t.toList = some right) :
    let test (operator : String) := evaluator.test record (.leaf field operator (.text t))
    test "eq" = .ok (decide (s = t)) ∧ test "neq" = .ok (decide (s ≠ t)) ∧
      (test "gte" = .ok true ∧ test "lte" = .ok true ↔ left = right) ∧
      (test "eq" = .ok (decide (left = right)) ∧ test "neq" = .ok (decide (left ≠ right)) ↔
        (left = right → s = t)) := by
  have hEqual : evaluator.test record (.leaf field "eq" (.text t)) = .ok (decide (s = t)) := by
    have hTest := @test_operator evaluator record _ field hField .equal (.text t)
    rwa [holds, Eval.equals_string] at hTest
  have hNotEqual : evaluator.test record (.leaf field "neq" (.text t)) =
      .ok (decide (s ≠ t)) := by
    have hTest := @test_operator evaluator record _ field hField .notEqual (.text t)
    rw [holds, Eval.equals_string] at hTest
    rw [decide_not]
    exact hTest
  obtain ⟨-, hNotLess, -, hNotGreater⟩ :=
    @test_orderings evaluator record _ field hField (.text t)
  have hOrder := order_dates hLeft hRight
  have hSpelled : s = t → left = right := by
    rintro rfl
    exact Option.some.inj (hLeft.symm.trans hRight)
  simp only [hEqual, hNotEqual, hNotLess, hNotGreater, ordered_eq_true_iff, hOrder,
    Except.ok.injEq, Option.some.injEq, true_and]
  refine ⟨?_, ?_⟩
  · rw [← Date.Moment.order_eq_iff]
    cases left.order right <;> simp
  · constructor
    · rintro ⟨hAnswer, -⟩ hSame
      exact (decide_eq_decide.mp hAnswer).mpr hSame
    · intro hText
      have hIff : s = t ↔ left = right := ⟨hSpelled, hText⟩
      simp only [hIff, ne_eq, and_self]

/-- The fifth of January written with and without padding: one day, and not equal. -/
theorem dates_equal_iff_same_text_padding :
    let evaluator : Evaluator := ⟨"[day padding:none].[month].[year]",
      [.component (.day .none), .literal [46], .component (.month .zero .numerical true),
        .literal [46], .component (.year .zero .full false false)]⟩
    let record : Value := .object [("due", .text "5.01.2025")]
    ofFormat evaluator.format = .ok evaluator ∧
      evaluator.test record (.leaf "due" "gte" (.text "05.01.2025")) = .ok true ∧
      evaluator.test record (.leaf "due" "lte" (.text "05.01.2025")) = .ok true ∧
      evaluator.test record (.leaf "due" "eq" (.text "05.01.2025")) = .ok false ∧
      evaluator.test record (.leaf "due" "neq" (.text "05.01.2025")) = .ok true := by
  intro evaluator record
  have hField : Eval.resolve record "due" = .ok (some (.text "5.01.2025")) := by cbv
  have hShort : evaluator.moment? "5.01.2025".toList = some ⟨⟨2025, 5⟩, .midnight⟩ := by
    decide +kernel
  have hLong : evaluator.moment? "05.01.2025".toList = some ⟨⟨2025, 5⟩, .midnight⟩ := by
    decide +kernel
  obtain ⟨hEqual, hNotEqual, hTied, -⟩ := dates_equal_iff_same_text evaluator hField hShort hLong
  obtain ⟨hNotLess, hNotGreater⟩ := hTied.mpr rfl
  exact ⟨by cbv, hNotLess, hNotGreater, hEqual, hNotEqual⟩

end Evaluator
end RecordFilter

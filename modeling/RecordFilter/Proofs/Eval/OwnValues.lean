/-
Filters made from the values of a record.

The text of a value is equal to the value and tied with it: a whole number is read back from
its digits, a date is the date that it spells, and everything that is neither is the same
text.  That a floating number is read back from its text is assumed of the number in
question.

A value without null and objects is also equal to the filter value that its JSON denotes.
-/
import Mathlib
import RecordFilter.Filter.Encoding
import RecordFilter.Proofs.Eval.Agreement

namespace RecordFilter

open Json (Value)

/-! ### Numbers and themselves -/

namespace Decimal

open Float.Model (UnpackedFloat)

variable {u : UnpackedFloat}

theorem compare_self (hNumber : u ≠ .notANumber) : u.compare u = some .eq := by
  cases u with
  | notANumber => exact absurd rfl hNumber
  | zero _ => rfl
  | infinity sign => cases sign <;> rfl
  | finite sign _ _ _ => cases sign <;> simp [UnpackedFloat.compare]

theorem Below.isFinite {bound : Int} (hBelow : Below bound u) : u.isFinite = true := by
  cases hBelow <;> rfl

end Decimal

namespace Eval

open Decimal (unpacked)

variable {actual : Value} {x : Float}

theorem isFinite_of_number? (hNumber : number? actual = some x) :
    (unpacked x).isFinite = true := by
  cases actual with
  | integer n =>
      cases hNumber
      exact (below_whole n).isFinite
  | float z =>
      cases hNumber
      exact z.isFinite
  | null | bool _ | text _ | array _ | object _ => cases hNumber

theorem close_self (actual : Value) (hNumber : number? actual = some x) :
    (x == x) = true ∧ close x x = true := by
  have hSelf := Decimal.compare_self (unpacked_ne_of_number? hNumber)
  constructor
  · rw [beq_eq_compare, hSelf]
    rfl
  · exact close_of_compare (isFinite_of_number? hNumber) hSelf

/-! ### The text of a value -/

def ReadsBack : Value → Prop
  | .float x => Decimal.readFloat? (Value.float x).write = some x.value
  | _ => True

theorem readInteger128?_whole (n : Json.Whole) :
    Decimal.readInteger128? (Decimal.writeInteger n.value) = some n.value := by
  have hLow := n.low_le
  have hHigh := n.lt_high
  unfold Decimal.readInteger128?
  rw [Decimal.readInteger?_writeInteger]
  simp only [Bool.and_eq_true, decide_eq_true_eq]
  rw [if_pos]
  omega

variable {t : String} (hText : t.toList = text actual)
include hText

theorem equals_own (hReads : ReadsBack actual) : equals actual (.text t) = true := by
  cases actual with
  | integer n =>
      have hRead : integerOfAtom? (.text t) = some n.value := by
        rw [integerOfAtom?, hText]
        exact readInteger128?_whole n
      rw [equals_integer, hRead]
      exact beq_self_eq_true n.value
  | float x =>
      have hRead : numberOfAtom? (.text t) = some x.value := by
        rw [numberOfAtom?, hText]
        exact hReads
      have hSelf := close_self (.float x) rfl
      rw [equals_float, closeToAtom, hRead]
      exact hSelf.2
  | bool b =>
      have hWord : t = if b then "true" else "false" := by
        rw [← String.toList_inj, hText]
        cases b <;> rfl
      rw [hWord]
      cases b <;> rfl
  | text s =>
      rw [String.toList_inj.mp hText]
      exact (equals_string s s).trans (beq_self_eq_true s)
  | null | array _ | object _ =>
      simp only [equals, integer?, Atom.write, hText, beq_self_eq_true]

theorem not_nearlyEqual_own (hReads : ReadsBack actual) : ¬ NearlyEqual actual t := by
  rintro ⟨hFloating, x, y, hNumber, hRead, -, hOther⟩
  rw [hText] at hFloating hRead
  cases actual with
  | integer n =>
      rcases hFloating with hNone | hNone
      · cases hNone
      · change Decimal.readInteger128? (Decimal.writeInteger n.value) = none at hNone
        rw [readInteger128?_whole] at hNone
        cases hNone
  | float z =>
      cases hNumber
      cases hRead.symm.trans hReads
      rw [(close_self (.float z) rfl).1] at hOther
      cases hOther
  | null | bool _ | text _ | array _ | object _ => cases hNumber

end Eval

/-! ### The filter value of a value -/

namespace Json

mutual

/-- Whether neither null nor an object stands anywhere in a value. -/
def Value.lacksNullAndObject : Value → Bool
  | .null => false
  | .object _ => false
  | .array items => itemsLackNullAndObject items
  | _ => true

def itemsLackNullAndObject : List Value → Bool
  | [] => true
  | item :: items => item.lacksNullAndObject && itemsLackNullAndObject items

end

end Json

namespace Eval

theorem equals_ofWhole (n : Json.Whole) : equals (.integer n) (Atom.ofWhole n) = true := by
  rw [equals_integer]
  by_cases hFits : n.value < 0x8000000000000000
  · have hLow := n.low_le
    have hValue : (Int64.ofInt n.value).toInt = n.value :=
      Int64.toInt_ofInt_of_le (by omega) (by omega)
    rw [Atom.ofWhole, if_pos hFits, integerOfAtom?, hValue]
    exact beq_self_eq_true n.value
  -- both sides are rounded, to the same floating number
  · have hSelf := close_self (.integer n) rfl
    rw [Atom.ofWhole, if_neg hFits]
    exact hSelf.2

mutual

theorem exists_ofJson?_equals : ∀ actual : Value, actual.lacksNullAndObject = true →
    ∃ atom, Atom.ofJson? actual = some atom ∧ equals actual atom = true
  | .null, hAtoms => by cases hAtoms
  | .object _, hAtoms => by cases hAtoms
  | .bool b, _ => ⟨.bool b, rfl, beq_self_eq_true b⟩
  | .integer n, _ => ⟨Atom.ofWhole n, rfl, equals_ofWhole n⟩
  | .float x, _ => by
      have hSelf := close_self (.float x) rfl
      refine ⟨.float x.value, rfl, ?_⟩
      rw [equals_float]
      exact hSelf.2
  | .text s, _ => ⟨.text s, rfl, (equals_string s s).trans (beq_self_eq_true s)⟩
  | .array items, hAtoms => by
      obtain ⟨atoms, hJson, hEqual⟩ := exists_itemsOfJson?_equalItems items hAtoms
      refine ⟨.list atoms, ?_, ?_⟩
      · rw [Atom.ofJson?, hJson]
      · rw [equals]
        exact hEqual

theorem exists_itemsOfJson?_equalItems : ∀ items : List Value,
    Json.itemsLackNullAndObject items = true →
      ∃ atoms, Atom.itemsOfJson? items = some atoms ∧ equalItems items atoms = true
  | [], _ => ⟨[], rfl, rfl⟩
  | item :: items, hAtoms => by
      rw [Json.itemsLackNullAndObject, Bool.and_eq_true] at hAtoms
      obtain ⟨atom, hAtom, hEqual⟩ := exists_ofJson?_equals item hAtoms.1
      obtain ⟨atoms, hMore, hEquals⟩ := exists_itemsOfJson?_equalItems items hAtoms.2
      refine ⟨atom :: atoms, ?_, ?_⟩
      · rw [Atom.itemsOfJson?, hAtom, hMore]
      · rw [equalItems, hEqual, hEquals]
        rfl

end

end Eval

/-! ### Comparisons with own values -/

namespace Evaluator

variable {evaluator : Evaluator} {record actual : Value} {field t : String}

theorem order_own (hText : t.toList = Eval.text actual) (hReads : Eval.ReadsBack actual) :
    evaluator.order actual (.text t) = .ok (some .eq) :=
  (order_of_equals (Eval.equals_own hText hReads)).resolve_right
    (Eval.not_nearlyEqual_own hText hReads)

theorem test_own_ne_invalidDate (hField : Eval.resolve record field = .ok (some actual))
    (hText : t.toList = Eval.text actual) (operator shown format : String) :
    evaluator.test record (.leaf field operator (.text t)) ≠
      .error (.invalidDate shown format) := by
  intro hTest
  have hFault := (@test_comparison_eq_error_iff evaluator record _
    ⟨field, operator, .text t⟩).mp hTest
  cases hFault with
  | @date s moment hLeads _ hDate hNoDate =>
      have hSame : Eval.resolve record field = .ok (some (.text s)) :=
        Eval.resolve_eq_some_iff.mpr ⟨hLeads, by simp⟩
      rw [hField] at hSame
      cases hSame
      change evaluator.moment? t.toList = none at hNoDate
      rw [hText] at hNoDate
      cases hDate.symm.trans hNoDate

/-- A record matches the filters made from the text of one of its values, and is not outside
them.  The value also equals the filter value that its JSON denotes. -/
theorem own_value_matches (evaluator : Evaluator) {record actual : Value} {field : String}
    (hField : Eval.resolve record field = .ok (some actual))
    (hReads : Eval.ReadsBack actual) :
    let test (operator : String) :=
      evaluator.test record (.leaf field operator (.text (String.ofList (Eval.text actual))))
    (∀ operator ∈ ["eq", "gte", "lte", "contains", "startswith", "endswith"],
      test operator = .ok true) ∧
      (∀ operator ∈ ["neq", "gt", "lt", "doesnotcontain"], test operator = .ok false) ∧
      (',' ∉ Eval.text actual → test "in" = .ok true) ∧
      (∀ operator shown format, test operator ≠ .error (.invalidDate shown format)) ∧
      (actual.lacksNullAndObject = true → ∃ atom, Atom.ofJson? actual = some atom ∧
        evaluator.test record (.leaf field "eq" atom) = .ok true) := by
  have hText : (String.ofList (Eval.text actual)).toList = Eval.text actual :=
    String.toList_ofList
  generalize String.ofList (Eval.text actual) = t at hText ⊢
  have hEquals := Eval.equals_own hText hReads
  have hOrder : evaluator.order actual (.text t) = .ok (some .eq) := order_own hText hReads
  have hOccurs : Text.occursIn t.toList (Eval.text actual) = true :=
    (Text.occursIn_iff _ _).mpr ⟨[], [], by rw [hText]; simp⟩
  have hTest (operator : Operator) (value : Atom) :=
    @test_operator evaluator record actual field hField operator value
  obtain ⟨hGreater, hNotLess, hLess, hNotGreater⟩ :=
    @test_orderings evaluator record actual field hField (.text t)
  have hOrdered (accepted : List Ordering) :
      evaluator.ordered accepted actual (.text t) = .ok (accepted.contains .eq) := by
    rw [ordered, hOrder]
  refine ⟨?_, ?_, ?_, fun operator => test_own_ne_invalidDate hField hText operator, ?_⟩
  · simp only [List.forall_mem_cons, List.not_mem_nil, false_implies, implies_true, and_true]
    refine ⟨?_, ?_, ?_, ?_, ?_, ?_⟩
    · exact (hTest .equal _).trans (congrArg Except.ok hEquals)
    · exact hNotLess.trans (hOrdered _)
    · exact hNotGreater.trans (hOrdered _)
    · exact (hTest .contains _).trans (congrArg Except.ok hOccurs)
    · refine (hTest .startsWith _).trans (congrArg Except.ok ?_)
      rw [Atom.write, hText, Text.beginsWith, List.isPrefixOf_iff_prefix]
    · refine (hTest .endsWith _).trans (congrArg Except.ok ?_)
      rw [Atom.write, hText, Text.endsWith, List.isSuffixOf_iff_suffix]
  · simp only [List.forall_mem_cons, List.not_mem_nil, false_implies, implies_true, and_true]
    refine ⟨?_, ?_, ?_, ?_⟩
    · exact (hTest .notEqual _).trans (congrArg Except.ok (congrArg Bool.not hEquals))
    · exact hGreater.trans (hOrdered _)
    · exact hLess.trans (hOrdered _)
    · exact (hTest .notContains _).trans (congrArg Except.ok (congrArg Bool.not hOccurs))
  · intro hComma
    rw [← hText] at hComma
    refine (hTest .isIn _).trans (congrArg Except.ok ?_)
    rw [Eval.equalsPiece, Text.split_of_not_mem hComma, List.any_cons, String.ofList_toList,
      hEquals, Bool.true_or]
  · intro hAtoms
    obtain ⟨atom, hJson, hEqual⟩ := Eval.exists_ofJson?_equals actual hAtoms
    exact ⟨atom, hJson, (hTest .equal atom).trans (congrArg Except.ok hEqual)⟩

/-- A number that is written with an exponent, and a list with a whole number above the
signed ones. -/
theorem own_value_matches_numbers :
    let evaluator : Evaluator := ⟨"[year]", [.component (.year .zero .full false false)]⟩
    let large : Value := .float ⟨1e300, by decide +kernel⟩
    let list : Value := .array [.integer ⟨18446744073709551615, by decide, by decide⟩,
      .array [.float ⟨0.1, by decide +kernel⟩, .text "2024"]]
    let record : Value := .object [("list", list), ("size", large)]
    Eval.text large = "1e+300".toList ∧
      evaluator.test record (.leaf "size" "eq" (.text (String.ofList (Eval.text large)))) =
        .ok true ∧
      evaluator.test record (.leaf "size" "gt" (.text (String.ofList (Eval.text large)))) =
        .ok false ∧
      ∃ atom, Atom.ofJson? list = some atom ∧
        evaluator.test record (.leaf "list" "eq" atom) = .ok true := by
  intro evaluator large list record
  have hLarge : Eval.resolve record "size" = .ok (some large) := by cbv
  have hList : Eval.resolve record "list" = .ok (some list) := by cbv
  have hReads : Eval.ReadsBack large := by
    change Decimal.readFloat? large.write = some 1e300
    decide +kernel
  obtain ⟨hHolds, hFails, -⟩ := own_value_matches evaluator hLarge hReads
  obtain ⟨-, -, -, -, hAtoms⟩ := own_value_matches evaluator hList trivial
  exact ⟨by decide +kernel, hHolds "eq" (by simp), hFails "gt" (by simp), hAtoms rfl⟩

end Evaluator
end RecordFilter

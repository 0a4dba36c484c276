/-
The meaning of a filter and of its text.

Reading the text of a filter turns every value into a text.  A truth value or a
whole number is compared like its text, whatever the record holds, and a list of
such values is asked for membership like its text cut at the commas.  So a filter
whose values are of these kinds answers like the filter its text denotes, with
the same errors.
-/
import Mathlib
import RecordFilter.Eval.Evaluator
import RecordFilter.Proofs.Decimal.Integer
import RecordFilter.Proofs.Filter.RoundTrip
import RecordFilter.Proofs.Selection.Conjunction

namespace RecordFilter

open Json (Value)

/-! ### Comparing with a number -/

namespace Eval

def closeToAtom (x : Float) (expected : Atom) : Bool :=
  match numberOfAtom? expected with
  | some y => close x y
  | none => false

theorem equals_integer (m : Json.Whole) (expected : Atom) :
    equals (.integer m) expected =
      match integerOfAtom? expected with
      | some n => m.value == n
      | none => closeToAtom (Float.ofInt m.value) expected := by
  unfold equals closeToAtom
  cases integerOfAtom? expected <;> rfl

theorem equals_float (x : Json.Finite) (expected : Atom) :
    equals (.float x) expected = closeToAtom x.value expected := by
  unfold equals closeToAtom
  rfl

end Eval

/-! ### Values that are compared like their texts -/

namespace Atom

open Eval

/-- A truth value or a whole number. -/
inductive IsScalar : Atom → Prop where
  | bool (b : Bool) : IsScalar (.bool b)
  | integer (n : Int64) : IsScalar (.integer n)

theorem write_text (value : Atom) : (text value.display).write = value.write := by
  rw [write, display, String.toList_ofList]

theorem toList_display (value : Atom) : value.display.toList = value.write := by
  rw [display, String.toList_ofList]

namespace IsScalar

variable {value : Atom}

theorem integerOfAtom?_text (hScalar : value.IsScalar) :
    integerOfAtom? (.text value.display) = integerOfAtom? value := by
  cases hScalar with
  | bool b => cases b <;> rfl
  | integer n =>
      have hRead := Decimal.readInteger128?_writeInteger n
      simp only [integerOfAtom?, toList_display, write, hRead]

theorem numberOfAtom?_text (hScalar : value.IsScalar) :
    numberOfAtom? (.text value.display) = numberOfAtom? value := by
  cases hScalar with
  | bool b => cases b <;> decide
  | integer n =>
      have hRead := Decimal.readFloat?_writeInteger n
      simp only [numberOfAtom?, toList_display, write, hRead]

end IsScalar

theorem head_writeInteger (n : Int) :
    ∃ c cs, Decimal.writeInteger n = c :: cs ∧ c ≠ 't' ∧ c ≠ 'f' := by
  have hNumeral := Decimal.isNumeral_toDigits n.natAbs
  unfold Decimal.writeInteger
  by_cases hNegative : n < 0
  · rw [if_pos hNegative]
    exact ⟨'-', _, rfl, by decide, by decide⟩
  · rw [if_neg hNegative]
    cases hDigits : Nat.toDigits 10 n.natAbs with
    | nil => exact absurd hDigits hNumeral.ne_nil
    | cons c cs =>
        have hDigit := hNumeral.isDigit c (by rw [hDigits]; simp)
        exact ⟨c, cs, rfl, Decimal.ne_of_isDigit hDigit (by decide),
          Decimal.ne_of_isDigit hDigit (by decide)⟩

theorem truth?_display_integer (n : Int64) : truth? (integer n).display = none := by
  obtain ⟨c, cs, hText, hT, hF⟩ := head_writeInteger n.toInt
  have hChars : (integer n).display.toList = c :: cs := by rw [toList_display, write, hText]
  have hTrue : (integer n).display ≠ "true" := by
    intro hSame
    rw [hSame] at hChars
    exact hT (List.cons.inj hChars).1.symm
  have hFalse : (integer n).display ≠ "false" := by
    intro hSame
    rw [hSame] at hChars
    exact hF (List.cons.inj hChars).1.symm
  rw [truth?, if_neg hTrue, if_neg hFalse]

theorem IsScalar.equals_bool {value : Atom} (hScalar : value.IsScalar) (b : Bool) :
    equals (.bool b) (.text value.display) = equals (.bool b) value := by
  cases hScalar with
  | bool c =>
      have hRead : truth? (Atom.bool c).display = some c := by cases c <;> rfl
      simp only [equals, integer?, hRead]
      cases b <;> cases c <;> rfl
  | integer n =>
      obtain ⟨c, cs, hText, hT, hF⟩ := head_writeInteger n.toInt
      simp only [equals, integer?, truth?_display_integer, write, hText]
      cases b with
      | true => simp [Eval.text, Value.write, Ne.symm hT]
      | false => simp [Eval.text, Value.write, Ne.symm hF]

theorem IsScalar.equals_string {value : Atom} (hScalar : value.IsScalar) (s : String) :
    equals (.text s) (.text value.display) = equals (.text s) value := by
  have hText : (s == value.display) = (s.toList == value.write) := by
    rw [← toList_display, Bool.eq_iff_iff, beq_iff_eq, beq_iff_eq, String.toList_inj]
  cases hScalar with
  | bool b => simp only [equals, integer?, Eval.text, hText]
  | integer n => simp only [equals, integer?, Eval.text, hText]

theorem IsScalar.equals_text {value : Atom} (hScalar : value.IsScalar) (actual : Value) :
    equals actual (.text value.display) = equals actual value := by
  have hWrite := write_text value
  cases actual with
  | bool b => exact hScalar.equals_bool b
  | text s => exact hScalar.equals_string s
  | integer m =>
      rw [equals_integer, equals_integer, closeToAtom, closeToAtom,
        hScalar.integerOfAtom?_text, hScalar.numberOfAtom?_text]
  | float x =>
      rw [equals_float, equals_float, closeToAtom, closeToAtom, hScalar.numberOfAtom?_text]
  | null => cases hScalar <;> simp only [equals, integer?, hWrite]
  | array items => cases hScalar <;> simp only [equals, integer?, hWrite]
  | object entries => cases hScalar <;> simp only [equals, integer?, hWrite]

theorem IsScalar.orderValues?_text {value : Atom} (hScalar : value.IsScalar) (actual : Value) :
    orderValues? actual (.text value.display) = orderValues? actual value := by
  rw [orderValues?, orderValues?, hScalar.integerOfAtom?_text, hScalar.numberOfAtom?_text,
    write_text]

/-! ### Membership -/

/-- A value that stands between commas in the text of a list: a truth value, a whole
number, or a text without commas. -/
inductive IsListable : Atom → Prop where
  | scalar {value : Atom} (hScalar : value.IsScalar) : IsListable value
  | text {s : String} (hFree : ',' ∉ s.toList) : IsListable (.text s)

theorem IsListable.equals_text {value : Atom} (hListable : value.IsListable) (actual : Value) :
    equals actual (.text value.display) = equals actual value := by
  cases hListable with
  | scalar hScalar => exact hScalar.equals_text actual
  | text hFree => rw [Filter.display_text]

theorem comma_not_mem_writeInteger (n : Int) : ',' ∉ Decimal.writeInteger n := by
  unfold Decimal.writeInteger
  rw [List.mem_append, not_or]
  constructor
  · split <;> decide
  · intro hComma
    have hDigit := (Decimal.isNumeral_toDigits n.natAbs).isDigit ',' hComma
    exact absurd hDigit (by decide)

theorem IsListable.comma_not_mem_write {value : Atom} (hListable : value.IsListable) :
    ',' ∉ value.write := by
  cases hListable with
  | text hFree => exact hFree
  | scalar hScalar =>
      cases hScalar with
      | bool b => cases b <;> decide
      | integer n => exact comma_not_mem_writeInteger n.toInt

theorem writeItems_eq_join (items : List Atom) :
    writeItems items = Text.join ',' (items.map write) := by
  induction items with
  | nil => rfl
  | cons item items ih =>
      cases items with
      | nil => rfl
      | cons next items => rw [writeItems, ih]; rfl

/-- The text of a list of listable values, cut at its commas, gives their texts. -/
theorem split_writeItems {items : List Atom} (hSome : items ≠ [])
    (hListable : ∀ item ∈ items, item.IsListable) :
    Text.split ',' (writeItems items) = items.map write := by
  rw [writeItems_eq_join]
  apply Text.split_join
  · simpa using hSome
  · intro piece hPiece
    obtain ⟨item, hItem, rfl⟩ := List.mem_map.mp hPiece
    exact (hListable item hItem).comma_not_mem_write

theorem among_text_list {items : List Atom} (hSome : items ≠ [])
    (hListable : ∀ item ∈ items, item.IsListable) (actual : Value) :
    Evaluator.among actual (.text (Atom.list items).display) =
      Evaluator.among actual (.list items) := by
  have hPieces : equalsPiece actual (Atom.list items).display =
      items.any fun item => equals actual item := by
    rw [equalsPiece, toList_display, write, split_writeItems hSome hListable, List.any_map,
      Bool.eq_iff_iff, List.any_eq_true, List.any_eq_true]
    apply exists_congr
    intro item
    apply and_congr_right
    intro hItem
    have hEquals := (hListable item hItem).equals_text actual
    rw [display] at hEquals
    rw [Function.comp_apply, hEquals]
  rw [Evaluator.among, Evaluator.among, hPieces]

end Atom

/-! ### Comparisons -/

namespace Evaluator

open Eval

variable {evaluator : Evaluator} {value : Atom}

theorem order_text (hScalar : value.IsScalar) (actual : Value) :
    evaluator.order actual (.text value.display) = evaluator.order actual value := by
  unfold order
  rw [Atom.write_text, Filter.display_text, hScalar.orderValues?_text]

theorem ordered_text (hScalar : value.IsScalar) (accepted : List Ordering) (actual : Value) :
    evaluator.ordered accepted actual (.text value.display) =
      evaluator.ordered accepted actual value := by
  unfold ordered
  rw [order_text hScalar]

/-- The operators that look at the kind of a value, not only at its text. -/
def comparing : List Operator :=
  [.equal, .notEqual, .greaterThan, .greaterThanOrEqual, .lessThan, .lessThanOrEqual, .isIn]

theorem holds_text_of_not_comparing {operator : Operator} (hOperator : operator ∉ comparing)
    (value : Atom) (actual : Value) :
    evaluator.holds operator actual (.text value.display) =
      evaluator.holds operator actual value := by
  have hWrite := Atom.write_text value
  cases operator with
  | equal | notEqual | greaterThan | greaterThanOrEqual | lessThan | lessThanOrEqual | isIn =>
      exact absurd (by decide) hOperator
  | isNull | isNotNull | isEmpty | isNotEmpty => rfl
  | contains | notContains | startsWith | endsWith => rw [holds, holds, hWrite]

theorem holds_text_of_isScalar {operator : Operator} (hScalar : value.IsScalar)
    (hOperator : operator ≠ .isIn) (actual : Value) :
    evaluator.holds operator actual (.text value.display) =
      evaluator.holds operator actual value := by
  cases operator with
  | equal | notEqual => rw [holds, holds, hScalar.equals_text]
  | greaterThan | greaterThanOrEqual | lessThan | lessThanOrEqual =>
      rw [holds, holds, ordered_text hScalar]
  | isIn => exact absurd rfl hOperator
  | isNull | isNotNull | isEmpty | isNotEmpty | contains | notContains | startsWith | endsWith =>
      exact holds_text_of_not_comparing (by decide) value actual

end Evaluator

/-- The values that mean the same to an operator when they are replaced by their texts. -/
inductive Atom.KeepsMeaning (operator : String) : Atom → Prop where
  | text (s : String) : KeepsMeaning operator (.text s)
  | scalar {value : Atom} (hScalar : value.IsScalar) (hOperator : operator ≠ "in") :
      KeepsMeaning operator value
  | list {items : List Atom} (hOperator : operator = "in") (hSome : items ≠ [])
      (hItems : ∀ item ∈ items, item.IsListable) : KeepsMeaning operator (.list items)
  | other (value : Atom) (hOperator : operator ∉ ["eq", "neq", "gt", "gte", "lt", "lte", "in"]) :
      KeepsMeaning operator value

theorem Atom.KeepsMeaning.holds_text {operator : Operator} {value : Atom}
    (hKeeps : value.KeepsMeaning operator.token) (evaluator : Evaluator) (actual : Value) :
    evaluator.holds operator actual (.text value.display) =
      evaluator.holds operator actual value := by
  cases hKeeps with
  | text s => rw [Filter.display_text]
  | scalar hScalar hOperator =>
      have hNotIn : operator ≠ .isIn := by
        rintro rfl
        exact hOperator rfl
      exact Evaluator.holds_text_of_isScalar hScalar hNotIn actual
  | @list items hOperator hSome hItems =>
      have hIn : operator = .isIn := by
        cases operator <;> first | rfl | exact absurd hOperator (by decide)
      subst hIn
      exact Atom.among_text_list hSome hItems actual
  | other _ hOperator =>
      have hNot : operator ∉ Evaluator.comparing := by
        intro hMember
        exact hOperator (List.mem_map_of_mem (f := Operator.token) hMember)
      exact Evaluator.holds_text_of_not_comparing hNot value actual

theorem Evaluator.testLeaf_text {field operator : String} {value : Atom}
    (hKeeps : value.KeepsMeaning operator) (evaluator : Evaluator) (record : Value) :
    evaluator.testLeaf field operator (.text value.display) record =
      evaluator.testLeaf field operator value record := by
  unfold testLeaf
  cases Eval.resolve record field with
  | error error => rfl
  | ok actual =>
      cases hFound : Operator.ofToken? operator with
      | none => rfl
      | some found =>
          have hToken := Operator.token_of_ofToken? hFound
          subst hToken
          cases actual with
          | none => rfl
          | some actual => exact hKeeps.holds_text evaluator actual

/-! ### Trees -/

namespace Evaluator

open RecordFilter.Filter (simplify simplifyAll textual textualAll collapse)

variable (evaluator : Evaluator) (record : Value)

theorem testAny_single (only : Filter) :
    evaluator.testAny record [only] = evaluator.test record only := by
  simp only [testAny]
  cases evaluator.test record only with
  | error error => rfl
  | ok held => cases held <;> rfl

theorem test_collapse (logic : Logic) (children : List Filter) :
    evaluator.test record (collapse logic children) =
      evaluator.test record (.group logic children) := by
  rcases children with _ | ⟨only, _ | ⟨next, children⟩⟩
  · rfl
  · cases logic with
    | and => exact (Selection.testAll_single evaluator record only).symm
    | or => exact (testAny_single evaluator record only).symm
  · rfl

theorem testAll_congr {left right : List Filter}
    (hSame : List.Forall₂ (fun l r => evaluator.test record l = evaluator.test record r)
      left right) : evaluator.testAll record left = evaluator.testAll record right := by
  induction hSame with
  | nil => rfl
  | cons hHead _ ih => rw [testAll, testAll, hHead, ih]

theorem testAny_congr {left right : List Filter}
    (hSame : List.Forall₂ (fun l r => evaluator.test record l = evaluator.test record r)
      left right) : evaluator.testAny record left = evaluator.testAny record right := by
  induction hSame with
  | nil => rfl
  | cons hHead _ ih => rw [testAny, testAny, hHead, ih]

theorem test_group_congr {logic : Logic} {left right : List Filter}
    (hSame : List.Forall₂ (fun l r => evaluator.test record l = evaluator.test record r)
      left right) :
    evaluator.test record (.group logic left) = evaluator.test record (.group logic right) := by
  cases logic with
  | and => exact testAll_congr evaluator record hSame
  | or => exact testAny_congr evaluator record hSame

mutual

theorem test_simplify : ∀ filter : Filter,
    evaluator.test record filter.simplify = evaluator.test record filter
  | .leaf _ _ _ => rfl
  | .group logic children => by
      rw [simplify, test_collapse]
      exact test_group_congr evaluator record (test_simplifyAll children)

theorem test_simplifyAll : ∀ children : List Filter,
    List.Forall₂ (fun l r => evaluator.test record l = evaluator.test record r)
      (simplifyAll children) children
  | [] => .nil
  | child :: children => .cons (test_simplify child) (test_simplifyAll children)

end

mutual

theorem test_textual : ∀ filter : Filter,
    filter.Every (fun _ operator value => value.KeepsMeaning operator) →
      evaluator.test record filter.textual = evaluator.test record filter
  | .leaf _ _ _, hKeeps => testLeaf_text hKeeps evaluator record
  | .group _ children, hKeeps =>
      test_group_congr evaluator record (test_textualAll children hKeeps.2)

theorem test_textualAll : ∀ children : List Filter,
    Filter.EveryIn (fun _ operator value => value.KeepsMeaning operator) children →
      List.Forall₂ (fun l r => evaluator.test record l = evaluator.test record r)
        (textualAll children) children
  | [], _ => .nil
  | child :: children, hKeeps =>
      .cons (test_textual child hKeeps.1) (test_textualAll children hKeeps.2)

end

end Evaluator

namespace Filter

mutual

theorem every_isTextual_textual : ∀ filter : Filter, filter.Every IsPrintable →
    filter.textual.Every IsTextual
  | .leaf _ _ value, _ => ⟨value.display, rfl⟩
  | .group _ children, hPrintable => by
      refine ⟨?_, everyIn_isTextual_textualAll children hPrintable.2⟩
      rw [textualAll_eq_map]
      simpa using hPrintable.1

theorem everyIn_isTextual_textualAll : ∀ children : List Filter, EveryIn IsPrintable children →
    EveryIn IsTextual (textualAll children)
  | [], _ => trivial
  | child :: children, hPrintable =>
      ⟨every_isTextual_textual child hPrintable.1,
        everyIn_isTextual_textualAll children hPrintable.2⟩

end

/-- A printable tree whose values keep their meaning answers every record like the tree
that its text denotes, with the same error if there is one. -/
theorem parse_render_keeps_meaning (filter : Filter) (hPrintable : filter.Every IsPrintable)
    (hKeeps : filter.Every fun _ operator value => value.KeepsMeaning operator) :
    ∃ again, parse (renderOption (some filter)) = .ok (some again) ∧ again.Every IsTextual ∧
      ∀ (evaluator : Evaluator) (record : Value),
        evaluator.test record again = evaluator.test record filter := by
  refine ⟨filter.simplify.textual, parse_render hPrintable, ?_, ?_⟩
  · exact every_isTextual_textual _ ((every_simplify_iff filter).mpr hPrintable)
  · intro evaluator record
    rw [Evaluator.test_textual evaluator record _ ((every_simplify_iff filter).mpr hKeeps),
      Evaluator.test_simplify]

/-- A tree with a whole number beyond the exact floating numbers, a list of three kinds and
a floating number that is only searched for. -/
theorem parse_render_keeps_meaning_mixed :
    let filter : Filter := .all [.leaf "a.b" "eq" (.integer 9007199254740993),
      .any [.leaf "c" "in" (.list [.bool true, .integer (-3), .text "x y"])],
      .any [.leaf "d" "contains" (.float 1.5), .leaf "e" "gt" (.bool false)]]
    filter.Every IsPrintable ∧
      (filter.Every fun _ operator value => value.KeepsMeaning operator) ∧
      ∃ again, parse (renderOption (some filter)) = .ok (some again) ∧ again.Every IsTextual ∧
        ∀ (evaluator : Evaluator) (record : Value),
          evaluator.test record again = evaluator.test record filter := by
  intro filter
  have hPrintable : filter.Every IsPrintable := by decide +kernel
  have hItems : ∀ item ∈ [Atom.bool true, .integer (-3), .text "x y"], item.IsListable := by
    simp only [List.forall_mem_cons]
    exact ⟨.scalar (.bool true), .scalar (.integer (-3)), .text (by decide), by simp⟩
  have hKeeps : filter.Every fun _ operator value => value.KeepsMeaning operator := by
    refine ⟨by simp, ?_, ⟨by simp, ?_, trivial⟩, ⟨by simp, ?_, ?_, trivial⟩, trivial⟩
    · exact .scalar (.integer 9007199254740993) (by decide)
    · exact .list rfl (by simp) hItems
    · exact .other (.float 1.5) (by decide)
    · exact .scalar (.bool false) (by decide)
  exact ⟨hPrintable, hKeeps, parse_render_keeps_meaning filter hPrintable hKeeps⟩

end Filter
end RecordFilter

/-
Whole numbers compared exactly.

A filter value denotes a whole number if it is one, or if it spells one by decimal digits,
of which there may be any number.  A spelling that does not fit 128 bits is only read as a
floating number.  That number is `2 ^ 127` or more in size, and the one next to a whole
number of a record is below `2 ^ 66`.  So the two are never close and are ordered like the
whole numbers, and rounding shows in no answer.
-/
import Mathlib
import RecordFilter.Proofs.Decimal.Magnitude
import RecordFilter.Proofs.Eval.Faults
import RecordFilter.Proofs.Eval.Textual

namespace RecordFilter

open Json (Value)
open Float.Model.UnpackedFloat (Sign)

/-! ### Spellings -/

namespace Decimal

variable {text : List Char} {n : Int}

/-- Decimal digits, with or without a sign in front, spell a whole number. -/
inductive Spells : List Char → Int → Prop where
  | digits {digits : List Char} (hDigits : IsNumeral digits) :
      Spells digits (Nat.ofDigitChars 10 digits 0)
  | plus {digits : List Char} (hDigits : IsNumeral digits) :
      Spells ('+' :: digits) (Nat.ofDigitChars 10 digits 0)
  | minus {digits : List Char} (hDigits : IsNumeral digits) :
      Spells ('-' :: digits) (-(Nat.ofDigitChars 10 digits 0 : Nat))

theorem Spells.exists_spanSign (hSpells : Spells text n) :
    ∃ negative digits, spanSign text = (negative, digits) ∧ IsNumeral digits ∧
      n = if negative then -(digitsValue 0 digits : Int) else digitsValue 0 digits := by
  cases hSpells with
  | digits hDigits => exact ⟨false, _, hDigits.spanSign_eq, hDigits, rfl⟩
  | plus hDigits => exact ⟨false, _, rfl, hDigits, rfl⟩
  | minus hDigits => exact ⟨true, _, rfl, hDigits, rfl⟩

theorem Spells.readInteger?_eq (hSpells : Spells text n) : readInteger? text = some n := by
  obtain ⟨negative, digits, hSign, hDigits, hValue⟩ := hSpells.exists_spanSign
  have hAll : digits.all Char.isDigit = true := List.all_eq_true.mpr hDigits.isDigit
  unfold readInteger?
  rw [hSign, hValue]
  simp only [hDigits.isEmpty_eq, hAll, Bool.not_true, Bool.or_self, Bool.false_eq_true, if_false]

theorem Spells.readInteger128?_eq (hSpells : Spells text n) :
    readInteger128? text = if -2 ^ 127 ≤ n ∧ n < 2 ^ 127 then some n else none := by
  unfold readInteger128?
  rw [hSpells.readInteger?_eq]
  simp only [Bool.and_eq_true, decide_eq_true_eq]
  rfl

/-- A whole number of `2 ^ 127` or more is spelled like a floating number on its side of
zero that is no smaller. -/
theorem Spells.exists_readFloat? (hSpells : Spells text n) (hLarge : 2 ^ 127 ≤ n.natAbs) :
    ∃ x sign, readFloat? text = some x ∧ n = sign.apply n.natAbs ∧
      Above sign 127 (unpacked x) := by
  obtain ⟨negative, digits, hSign, hDigits, hValue⟩ := hSpells.exists_spanSign
  have hSize : n.natAbs = digitsValue 0 digits := by
    cases negative <;> simp [hValue]
  rw [hSize] at hLarge ⊢
  have hAbove : Above .positive 127 (unpacked (nearest (digitsValue 0 digits) 0)) :=
    above_nearest hLarge (by decide)
  have hRead : readFloat? text = some (if negative then -nearest (digitsValue 0 digits) 0
      else nearest (digitsValue 0 digits) 0) := by
    unfold readFloat?
    rw [hSign]
    simp only [hDigits.readSpecial?_eq, hDigits.readUnsigned?_eq, Option.map_some]
  cases negative with
  | false => exact ⟨_, .positive, hRead, hValue, hAbove⟩
  | true =>
      refine ⟨_, .negative, hRead, hValue, ?_⟩
      rw [if_pos rfl, unpacked_neg]
      exact hAbove.neg.repacked

theorem Spells.comma_not_mem (hSpells : Spells text n) : ',' ∉ text := by
  have hFree : ∀ {digits : List Char}, IsNumeral digits → ',' ∉ digits := by
    intro digits hDigits hComma
    exact absurd (hDigits.isDigit ',' hComma) (by decide)
  cases hSpells with
  | digits hDigits => exact hFree hDigits
  | plus hDigits => simpa using hFree hDigits
  | minus hDigits => simpa using hFree hDigits

end Decimal

/-- The whole number that a filter value is, or spells. -/
inductive Atom.Denotes : Atom → Int → Prop where
  | integer (n : Int64) : Denotes (.integer n) n.toInt
  | text {s : String} {n : Int} (hSpells : Decimal.Spells s.toList n) : Denotes (.text s) n

/-! ### Floating numbers -/

namespace Eval

open Decimal (unpacked Below Above)

variable {x y : Float} {low high : Int} {sign : Sign}

theorem lt_iff_compare (x y : Float) :
    x < y ↔ (unpacked x).compare (unpacked y) = some .lt := by
  change decide (x.toModel < y.toModel) = true ↔ _
  rw [decide_eq_true_iff]
  exact beq_iff_eq

theorem beq_eq_compare (x y : Float) :
    (x == y) = ((unpacked x).compare (unpacked y) == some .eq) := rfl

theorem orderNumbers?_eq_compare (x y : Float) :
    orderNumbers? x y = (unpacked x).compare (unpacked y) := by
  have hSwap := Decimal.compare_swap (unpacked x) (unpacked y)
  unfold orderNumbers?
  simp only [lt_iff_compare, beq_eq_compare, ← hSwap]
  cases (unpacked x).compare (unpacked y) with
  | none => rfl
  | some order => cases order <;> rfl

theorem below_epsilon : Below 0 (unpacked epsilon) := by
  have hUnpacked : unpacked epsilon = .finite .positive (2 ^ 52) (-104) (by decide) := rfl
  rw [hUnpacked]
  exact .finite _ ⟨by decide, by decide, by decide⟩ (by decide)

theorem close_eq_false (hBelow : Below low (unpacked x)) (hAbove : Above sign high (unpacked y))
    (hBounds : low + 2 ≤ high) (hLarge : 1 ≤ high) : close x y = false := by
  have hDistance : Above .positive (high - 1) (unpacked (x - y).abs) := by
    rw [Decimal.unpacked_abs, Decimal.unpacked_sub]
    exact (Decimal.sub_below_above hBelow hAbove hBounds).repacked.abs.repacked
  have hOrder := Decimal.compare_below_above below_epsilon hDistance (by omega)
  apply decide_eq_false
  rw [lt_iff_compare, ← Decimal.compare_swap, hOrder]
  decide

theorem natAbs_whole_lt (n : Json.Whole) : n.value.natAbs < 2 ^ 64 := by
  have hLow := n.low_le
  have hHigh := n.lt_high
  omega

theorem below_whole (n : Json.Whole) : Below 66 (unpacked (Float.ofInt n.value)) :=
  Decimal.below_ofInt (natAbs_whole_lt n) (by decide)

/-! ### Equality and order -/

variable {value : Atom} {m : Int}

/-- A value beyond 128 bits is read as a floating number only, which is as far from
zero. -/
theorem exists_numberOfAtom?_of_large (hDenotes : value.Denotes m)
    (hLarge : ¬ (-2 ^ 127 ≤ m ∧ m < 2 ^ 127)) :
    integerOfAtom? value = none ∧ ∃ y sign, numberOfAtom? value = some y ∧
      m = sign.apply m.natAbs ∧ 2 ^ 127 ≤ m.natAbs ∧ Above sign 127 (unpacked y) := by
  cases hDenotes with
  | integer n =>
      have hLow := n.le_toInt
      have hHigh := n.toInt_lt
      omega
  | text hSpells =>
      have hSize : 2 ^ 127 ≤ m.natAbs := by omega
      obtain ⟨y, sign, hRead, hApply, hAbove⟩ := hSpells.exists_readFloat? hSize
      refine ⟨?_, y, sign, hRead, hApply, hSize, hAbove⟩
      rw [integerOfAtom?, hSpells.readInteger128?_eq, if_neg hLarge]

theorem integerOfAtom?_of_small (hDenotes : value.Denotes m)
    (hSmall : -2 ^ 127 ≤ m ∧ m < 2 ^ 127) : integerOfAtom? value = some m := by
  cases hDenotes with
  | integer n => rfl
  | text hSpells => rw [integerOfAtom?, hSpells.readInteger128?_eq, if_pos hSmall]

theorem equals_whole (n : Json.Whole) (hDenotes : value.Denotes m) :
    equals (.integer n) value = decide (n.value = m) := by
  rw [equals_integer]
  by_cases hSmall : -2 ^ 127 ≤ m ∧ m < 2 ^ 127
  · rw [integerOfAtom?_of_small hDenotes hSmall]
    rfl
  · obtain ⟨hNone, y, sign, hRead, -, hSize, hAbove⟩ :=
      exists_numberOfAtom?_of_large hDenotes hSmall
    have hSmaller := natAbs_whole_lt n
    have hOther : n.value ≠ m := by omega
    simp only [hNone, closeToAtom, hRead, decide_eq_false hOther]
    exact close_eq_false (below_whole n) hAbove (by omega) (by omega)

theorem compare_apply (n : Json.Whole) (sign : Sign) {size : Nat} (hSize : 2 ^ 127 ≤ size) :
    compare n.value (sign.apply size) = Decimal.outward sign := by
  have hSmaller := natAbs_whole_lt n
  cases sign with
  | positive => exact Int.compare_eq_lt.mpr (show n.value < (size : Int) by omega)
  | negative => exact Int.compare_eq_gt.mpr (show -(size : Int) < n.value by omega)

theorem orderValues?_whole (n : Json.Whole) (hDenotes : value.Denotes m) :
    orderValues? (.integer n) value = some (compare n.value m) := by
  unfold orderValues?
  by_cases hSmall : -2 ^ 127 ≤ m ∧ m < 2 ^ 127
  · rw [integerOfAtom?_of_small hDenotes hSmall]
    rfl
  · obtain ⟨hNone, y, sign, hRead, hApply, hSize, hAbove⟩ :=
      exists_numberOfAtom?_of_large hDenotes hSmall
    have hOrder : orderNumbers? (Float.ofInt n.value) y = some (Decimal.outward sign) := by
      rw [orderNumbers?_eq_compare]
      exact Decimal.compare_below_above (below_whole n) hAbove (by decide)
    rw [hNone, hRead, hApply, compare_apply n sign hSize]
    exact hOrder

/-! ### Membership -/

theorem any_equals_whole (n : Json.Whole) {values : List Atom} {numbers : List Int}
    (hDenote : List.Forall₂ Atom.Denotes values numbers) :
    (values.any fun value => equals (.integer n) value) = decide (n.value ∈ numbers) := by
  induction hDenote with
  | nil => rfl
  | cons hHead _ ih =>
      rw [List.any_cons, ih, equals_whole n hHead]
      simp only [List.mem_cons, Bool.decide_or]

end Eval

namespace Atom

theorem isListable_of_denote {values : List Atom} {numbers : List Int}
    (hDenote : List.Forall₂ Denotes values numbers) : ∀ value ∈ values, value.IsListable := by
  induction hDenote with
  | nil => simp
  | cons hHead _ ih =>
      rw [List.forall_mem_cons]
      refine ⟨?_, ih⟩
      cases hHead with
      | integer n => exact .scalar (.integer n)
      | text hSpells => exact .text hSpells.comma_not_mem

theorem display_list (values : List Atom) :
    (list values).display = String.intercalate "," (values.map display) := by
  rw [← String.toList_inj, toList_display, write]
  induction values with
  | nil => rfl
  | cons value values ih =>
      cases values with
      | nil => rw [writeItems, List.map_singleton, String.intercalate_singleton, toList_display]
      | cons next values =>
          rw [List.map_cons] at ih
          rw [writeItems, List.map_cons, List.map_cons, String.intercalate_cons_cons,
            String.toList_append, String.toList_append, ← ih, toList_display, List.append_assoc]
          rfl

end Atom

namespace Evaluator

variable {evaluator : Evaluator} {value : Atom} {m : Int}

theorem ordered_whole (accepted : List Ordering) (n : Json.Whole) (hDenotes : value.Denotes m) :
    evaluator.ordered accepted (.integer n) value =
      .ok (accepted.contains (compare n.value m)) := by
  have hOrder : evaluator.order (.integer n) value = .ok (some (compare n.value m)) := by
    rw [← Eval.orderValues?_whole n hDenotes]
    rfl
  rw [ordered, hOrder]

theorem contains_compare (m n : Int) :
    [Ordering.gt].contains (compare m n) = decide (m > n) ∧
      [Ordering.gt, .eq].contains (compare m n) = decide (m ≥ n) ∧
      [Ordering.lt].contains (compare m n) = decide (m < n) ∧
      [Ordering.lt, .eq].contains (compare m n) = decide (m ≤ n) := by
  rcases Int.lt_trichotomy m n with hOrder | rfl | hOrder
  · rw [Int.compare_eq_lt.mpr hOrder]
    simp [hOrder, Int.le_of_lt hOrder, Int.not_lt.mpr (Int.le_of_lt hOrder)]
  · simp
  · rw [Int.compare_eq_gt.mpr hOrder]
    simp [hOrder, Int.le_of_lt hOrder, Int.not_lt.mpr (Int.le_of_lt hOrder)]

theorem among_list_whole (n : Json.Whole) {values : List Atom} {numbers : List Int}
    (hDenote : List.Forall₂ Atom.Denotes values numbers) :
    among (.integer n) (.list values) = .ok (decide (n.value ∈ numbers)) := by
  rw [among, Eval.any_equals_whole n hDenote]

theorem among_text_whole (n : Json.Whole) {values : List Atom} {numbers : List Int}
    (hDenote : List.Forall₂ Atom.Denotes values numbers) :
    among (.integer n) (.text (String.intercalate "," (values.map Atom.display))) =
      .ok (decide (n.value ∈ numbers)) := by
  cases values with
  | nil =>
      cases hDenote
      rfl
  | cons value values =>
      have hListable := Atom.isListable_of_denote hDenote
      rw [← Atom.display_list, Atom.among_text_list (List.cons_ne_nil _ _) hListable,
        among_list_whole n hDenote]

/-- A whole number of a record is compared exactly with every value that denotes one, of
any size, and membership in a list or in a text of such values is membership of the
numbers. -/
theorem test_whole_exact (evaluator : Evaluator) {record : Value} {field : String}
    {n : Json.Whole} (hField : Eval.resolve record field = .ok (some (.integer n))) :
    (∀ (value : Atom) (m : Int), value.Denotes m →
      evaluator.test record (.leaf field "eq" value) = .ok (decide (n.value = m)) ∧
      evaluator.test record (.leaf field "neq" value) = .ok (decide (n.value ≠ m)) ∧
      evaluator.test record (.leaf field "gt" value) = .ok (decide (n.value > m)) ∧
      evaluator.test record (.leaf field "gte" value) = .ok (decide (n.value ≥ m)) ∧
      evaluator.test record (.leaf field "lt" value) = .ok (decide (n.value < m)) ∧
      evaluator.test record (.leaf field "lte" value) = .ok (decide (n.value ≤ m))) ∧
    ∀ (values : List Atom) (numbers : List Int), List.Forall₂ Atom.Denotes values numbers →
      evaluator.test record (.leaf field "in" (.list values)) =
        .ok (decide (n.value ∈ numbers)) ∧
      evaluator.test record
          (.leaf field "in" (.text (String.intercalate "," (values.map Atom.display)))) =
        .ok (decide (n.value ∈ numbers)) := by
  have hTest : ∀ (operator : Operator) (value : Atom),
      evaluator.test record (.leaf field operator.token value) =
        evaluator.holds operator (.integer n) value := by
    intro operator value
    exact @test_of_holds evaluator record ⟨field, operator.token, value⟩ operator _ hField rfl
  constructor
  · intro value m hDenotes
    have hEquals := Eval.equals_whole n hDenotes
    have hOrdered : ∀ accepted, evaluator.ordered accepted (.integer n) value =
        .ok (accepted.contains (compare n.value m)) := by
      intro accepted
      exact ordered_whole accepted n hDenotes
    obtain ⟨hGreater, hNotLess, hLess, hNotGreater⟩ := contains_compare n.value m
    refine ⟨?_, ?_, ?_, ?_, ?_, ?_⟩
    · rw [← hEquals]
      exact hTest .equal value
    · rw [decide_not, ← hEquals]
      exact hTest .notEqual value
    · rw [← hGreater, ← hOrdered]
      exact hTest .greaterThan value
    · rw [← hNotLess, ← hOrdered]
      exact hTest .greaterThanOrEqual value
    · rw [← hLess, ← hOrdered]
      exact hTest .lessThan value
    · rw [← hNotGreater, ← hOrdered]
      exact hTest .lessThanOrEqual value
  · intro values numbers hDenote
    constructor
    · exact (hTest .isIn _).trans (among_list_whole n hDenote)
    · exact (hTest .isIn _).trans (among_text_whole n hDenote)

/-- The largest whole number of a record against its own signed spelling, against one that
is beyond 128 bits, and among them. -/
theorem test_whole_exact_beyond :
    let evaluator : Evaluator := ⟨"[year]", [.component (.year .zero .full false false)]⟩
    let record : Value := .object [("id", .integer ⟨18446744073709551615, by decide, by decide⟩)]
    let same : Atom := .text "+018446744073709551615"
    let beyond : Atom := .text "340282366920938463463374607431768211456"
    evaluator.test record (.leaf "id" "eq" same) = .ok true ∧
    evaluator.test record (.leaf "id" "gte" beyond) = .ok false ∧
    evaluator.test record (.leaf "id" "in" (.list [beyond, .integer (-1), same])) = .ok true ∧
    evaluator.test record
        (.leaf "id" "in" (.text "340282366920938463463374607431768211456,-1")) = .ok false := by
  intro evaluator record same beyond
  have hSame : same.Denotes 18446744073709551615 := by
    have hNumeral : Decimal.IsNumeral "018446744073709551615".toList :=
      ⟨by simp, by simp⟩
    have hText : "+018446744073709551615".toList = '+' :: "018446744073709551615".toList := by
      cbv
    have hValue : Nat.ofDigitChars 10 "018446744073709551615".toList 0 = 18446744073709551615 := by
      cbv
    have hSpells := Decimal.Spells.plus hNumeral
    rw [← hText, hValue] at hSpells
    exact .text hSpells
  have hBeyond : beyond.Denotes 340282366920938463463374607431768211456 := by
    have hNumeral : Decimal.IsNumeral "340282366920938463463374607431768211456".toList :=
      ⟨by simp, by simp⟩
    have hValue : Nat.ofDigitChars 10 "340282366920938463463374607431768211456".toList 0 =
        340282366920938463463374607431768211456 := by
      cbv
    have hSpells := Decimal.Spells.digits hNumeral
    rw [hValue] at hSpells
    exact .text hSpells
  have hMinus : (Atom.integer (-1)).Denotes (-1) := .integer (-1)
  have hField : Eval.resolve record "id" =
      .ok (some (.integer ⟨18446744073709551615, by decide, by decide⟩)) := by cbv
  obtain ⟨hSingle, hMembers⟩ := test_whole_exact evaluator hField
  obtain ⟨hEqual, -⟩ := hSingle same _ hSame
  obtain ⟨-, -, -, hOrder, -⟩ := hSingle beyond _ hBeyond
  obtain ⟨hList, -⟩ := hMembers _ _ (.cons hBeyond (.cons hMinus (.cons hSame .nil)))
  obtain ⟨-, hText⟩ := hMembers _ _ (.cons hBeyond (.cons hMinus .nil))
  exact ⟨hEqual, hOrder, hList, hText⟩

end Evaluator
end RecordFilter

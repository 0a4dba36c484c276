/-
Whole numbers written and read.

The digits of a whole number are read back as the number, both as an integer
literal and as a decimal one: read as a decimal, the text of a number of 64
signed bits is the floating number next to it.
-/
import Mathlib.Algebra.Group.Nat.Defs
import Mathlib.Data.List.TakeWhile
import RecordFilter.Decimal.Layout
import RecordFilter.Decimal.Literal

namespace RecordFilter
namespace Decimal

/-! ### Digits -/

theorem digitsValue_eq_ofDigitChars (high : Nat) (digits : List Char) :
    digitsValue high digits = Nat.ofDigitChars 10 digits high := by
  rw [Nat.ofDigitChars_eq_foldl]
  rfl

theorem digitsValue_toDigits (n : Nat) : digitsValue 0 (Nat.toDigits 10 n) = n := by
  rw [digitsValue_eq_ofDigitChars, Nat.ofDigitChars_ten_toDigits]

/-- A text of digits only, of which there is at least one. -/
structure IsNumeral (text : List Char) : Prop where
  ne_nil : text ≠ []
  isDigit : ∀ c ∈ text, c.isDigit = true

theorem isNumeral_toDigits (n : Nat) : IsNumeral (Nat.toDigits 10 n) where
  ne_nil := Nat.toDigits_ne_nil
  isDigit := fun _ hMember => Nat.isDigit_of_mem_toDigits (by decide) (by decide) hMember

theorem ne_of_isDigit {c d : Char} (hDigit : c.isDigit = true) (hOther : d.isDigit = false) :
    c ≠ d := by
  rintro rfl
  rw [hDigit] at hOther
  cases hOther

theorem toLower_of_isDigit {c : Char} (hDigit : c.isDigit = true) : c.toLower = c := by
  have hBounds : '0'.val ≤ c.val ∧ c.val ≤ '9'.val := by simpa [Char.isDigit] using hDigit
  have hNine : '9'.val < 'A'.val := by decide
  have hUpper : ¬ (c.val ≥ 'A'.val ∧ c.val ≤ 'Z'.val) := by
    rintro ⟨hLow, -⟩
    exact absurd (UInt32.le_trans hLow hBounds.2) (UInt32.not_le.mpr hNine)
  exact dif_neg hUpper

theorem spanDigits_of_digits {digits rest : List Char}
    (hDigits : ∀ c ∈ digits, c.isDigit = true) (hRest : ∀ c ∈ rest.head?, c.isDigit = false) :
    spanDigits (digits ++ rest) = (digits, rest) := by
  have hTake : rest.takeWhile Char.isDigit = [] := by
    cases rest with
    | nil => rfl
    | cons c cs => simp [hRest c rfl]
  have hDrop : rest.dropWhile Char.isDigit = rest := by
    cases rest with
    | nil => rfl
    | cons c cs => simp [hRest c rfl]
  rw [spanDigits, List.takeWhile_append_of_pos hDigits, List.dropWhile_append_of_pos hDigits,
    hTake, hDrop, List.append_nil]

namespace IsNumeral

variable {text : List Char}

theorem isEmpty_eq (hText : IsNumeral text) : text.isEmpty = false :=
  List.isEmpty_eq_false_iff.mpr hText.ne_nil

theorem spanDigits_eq (hText : IsNumeral text) : spanDigits text = (text, []) := by
  have hSpan : spanDigits (text ++ []) = (text, []) :=
    spanDigits_of_digits hText.isDigit (by simp)
  rwa [List.append_nil] at hSpan

theorem spanSign_eq (hText : IsNumeral text) : spanSign text = (false, text) := by
  obtain ⟨hSome, hDigits⟩ := hText
  cases text with
  | nil => exact absurd rfl hSome
  | cons c cs =>
      have hDigit := hDigits c (by simp)
      have hMinus : c ≠ '-' := ne_of_isDigit hDigit (by decide)
      have hPlus : c ≠ '+' := ne_of_isDigit hDigit (by decide)
      simp [spanSign, hMinus, hPlus]

end IsNumeral

theorem spanSign_writeInteger (n : Int) :
    spanSign (writeInteger n) = (decide (n < 0), Nat.toDigits 10 n.natAbs) := by
  unfold writeInteger
  by_cases hNegative : n < 0
  · rw [if_pos hNegative, decide_eq_true hNegative]
    rfl
  · rw [if_neg hNegative, decide_eq_false hNegative]
    exact (isNumeral_toDigits n.natAbs).spanSign_eq

/-! ### Integer literals -/

theorem readInteger?_writeInteger (n : Int) : readInteger? (writeInteger n) = some n := by
  have hNumeral := isNumeral_toDigits n.natAbs
  have hAll : (Nat.toDigits 10 n.natAbs).all Char.isDigit = true :=
    List.all_eq_true.mpr hNumeral.isDigit
  unfold readInteger?
  rw [spanSign_writeInteger]
  simp only [hNumeral.isEmpty_eq, hAll, digitsValue_toDigits, Bool.not_true, Bool.or_self,
    Bool.false_eq_true, if_false, decide_eq_true_eq, Option.some.injEq]
  split <;> omega

theorem writeInteger_injective {m n : Int} (hText : writeInteger m = writeInteger n) : m = n := by
  have hRead := readInteger?_writeInteger m
  rw [hText, readInteger?_writeInteger] at hRead
  exact (Option.some.inj hRead).symm

theorem readInteger128?_writeInteger (n : Int64) :
    readInteger128? (writeInteger n.toInt) = some n.toInt := by
  have hLow := n.le_toInt
  have hHigh := n.toInt_lt
  have hFits : -0x80000000000000000000000000000000 ≤ n.toInt ∧
      n.toInt < 0x80000000000000000000000000000000 := by omega
  simp [readInteger128?, readInteger?_writeInteger, hFits]

/-! ### Decimal literals -/

namespace IsNumeral

variable {text : List Char}

theorem readSpecial?_eq (hText : IsNumeral text) : readSpecial? text = none := by
  obtain ⟨hSome, hDigits⟩ := hText
  cases text with
  | nil => exact absurd rfl hSome
  | cons c cs =>
      have hDigit := hDigits c (by simp)
      have hN : c ≠ 'n' := ne_of_isDigit hDigit (by decide)
      have hI : c ≠ 'i' := ne_of_isDigit hDigit (by decide)
      simp [readSpecial?, toLower_of_isDigit hDigit, hN, hI]

theorem readUnsigned?_eq (hText : IsNumeral text) :
    readUnsigned? text = some (nearest (digitsValue 0 text) 0) := by
  simp [readUnsigned?, hText.spanDigits_eq, hText.isEmpty_eq, readExponent?]

end IsNumeral

/-- A natural number that is not huge is taken to the floating number next to it. -/
theorem nearest_eq_ofNat {n : Nat} (hSmall : n < 10 ^ 30) : nearest n 0 = Float.ofNat n := by
  by_cases hZero : n = 0
  · subst hZero
    decide
  · have hLength : (Nat.toDigits 10 n).length ≤ 30 :=
      (Nat.length_toDigits_le_iff (by decide) (by decide)).mpr hSmall
    have hNotSmall : ¬ ((Nat.toDigits 10 n).length + (0 : Int) < -330) := by omega
    have hNotLarge : ¬ (310 < (Nat.toDigits 10 n).length + (0 : Int)) := by omega
    simp only [nearest, hZero, hNotSmall, hNotLarge, decide_false, Bool.or_self,
      Bool.false_eq_true, if_false]
    rfl

theorem readFloat?_numeral {text : List Char} (hText : IsNumeral text) (negative : Bool)
    (hSmall : digitsValue 0 text < 10 ^ 30) :
    readFloat? ((if negative then ['-'] else []) ++ text) =
      some (if negative then -Float.ofNat (digitsValue 0 text)
        else Float.ofNat (digitsValue 0 text)) := by
  have hSign : spanSign ((if negative then ['-'] else []) ++ text) = (negative, text) := by
    cases negative with
    | true => rfl
    | false => exact hText.spanSign_eq
  unfold readFloat?
  rw [hSign]
  simp only [hText.readSpecial?_eq, hText.readUnsigned?_eq, nearest_eq_ofNat hSmall,
    Option.map_some]

theorem readFloat?_writeInteger (n : Int64) :
    readFloat? (writeInteger n.toInt) = some (Float.ofInt n.toInt) := by
  have hLow := n.le_toInt
  have hHigh := n.toInt_lt
  have hBound : n.toInt.natAbs < 10 ^ 30 := by omega
  have hRead := readFloat?_numeral (isNumeral_toDigits n.toInt.natAbs) (decide (n.toInt < 0))
    (by rw [digitsValue_toDigits]; exact hBound)
  simp only [decide_eq_true_eq, digitsValue_toDigits] at hRead
  rw [writeInteger, hRead]
  cases hSize : n.toInt with
  | ofNat size => rfl
  | negSucc size =>
      rw [if_pos (Int.negSucc_lt_zero size)]
      rfl

end Decimal
end RecordFilter

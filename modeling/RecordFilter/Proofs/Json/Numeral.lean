/-
Numbers in a longer text.

The text of a number ends at a separator or a line break, so that a number is read in
the same way whatever stands behind it.  A whole number is read as itself.  A floating
number is scaled in floating arithmetic when it is read, which does not give back every
number; `Finite.ReadsBack` is said of those that it gives back.
-/
import RecordFilter.Proofs.Json.Printed

namespace RecordFilter
namespace Json

open Decimal (spanDigits spanSign IsNumeral)

/-! ### Behind a value -/

def Ends : List Char → Prop
  | [] => True
  | c :: _ => c ∈ [',', ']', '\x7d', ' ', '\t', '\n', '\r']

theorem ends_nil : Ends [] := trivial

namespace Ends

variable {rest : List Char}

theorem head_notNumberChar (hRest : Ends rest) :
    ∀ c ∈ rest.head?, isNumberChar c = false ∧ c ≠ 'E' := by
  intro c hHead
  cases rest with
  | nil => cases hHead
  | cons first rest =>
      cases hHead
      simp only [Ends, List.mem_cons, List.not_mem_nil, or_false] at hRest
      rcases hRest with rfl | rfl | rfl | rfl | rfl | rfl | rfl <;> decide

theorem head_ne (hRest : Ends rest) {c : Char} (hNumber : isNumberChar c = true ∨ c = 'E') :
    ∀ first ∈ rest.head?, first ≠ c := by
  rintro first hHead rfl
  obtain ⟨hOther, hUpper⟩ := hRest.head_notNumberChar first hHead
  rcases hNumber with hNumber | rfl
  · rw [hNumber] at hOther
    cases hOther
  · exact hUpper rfl

theorem head_isDigit (hRest : Ends rest) : ∀ c ∈ rest.head?, c.isDigit = false := by
  intro c hHead
  have hOther := (hRest.head_notNumberChar c hHead).1
  cases hDigit : c.isDigit with
  | false => rfl
  | true =>
      rw [isNumberChar_of_isDigit hDigit] at hOther
      cases hOther

end Ends

/-! ### The parts of a number before something else -/

section Behind

variable {rest : List Char} (hRest : Ends rest) (text : List Char)
include hRest

theorem spanDigits_behind :
    spanDigits (text ++ rest) = ((spanDigits text).1, (spanDigits text).2 ++ rest) := by
  have hDigits : ∀ c ∈ text.takeWhile Char.isDigit, c.isDigit = true :=
    fun c hMem => List.mem_takeWhile_imp hMem
  have hStop : ∀ c ∈ (text.dropWhile Char.isDigit ++ rest).head?, c.isDigit = false := by
    -- the digits end inside the text, or with it where `rest` does not go on with one
    intro c hHead
    cases hAfter : text.dropWhile Char.isDigit with
    | nil =>
        rw [hAfter, List.nil_append] at hHead
        exact hRest.head_isDigit c hHead
    | cons first after =>
        rw [hAfter] at hHead
        cases hHead
        have hFirst := List.head?_dropWhile_not Char.isDigit text
        rw [hAfter] at hFirst
        simpa using hFirst
  have hSpan := Decimal.spanDigits_of_digits hDigits hStop
  rwa [← List.append_assoc, List.takeWhile_append_dropWhile] at hSpan

theorem spanMinus_behind :
    spanMinus (text ++ rest) = ((spanMinus text).1, (spanMinus text).2 ++ rest) := by
  cases text with
  | nil =>
      have hMinus := hRest.head_ne (c := '-') (.inl rfl)
      cases rest with
      | nil => rfl
      | cons c rest => simp [spanMinus, hMinus c rfl]
  | cons c text =>
      by_cases hMinus : c = '-'
      · subst hMinus
        rfl
      · simp [spanMinus, hMinus]

theorem spanSign_behind :
    spanSign (text ++ rest) = ((spanSign text).1, (spanSign text).2 ++ rest) := by
  cases text with
  | nil =>
      have hMinus := hRest.head_ne (c := '-') (.inl rfl)
      have hPlus := hRest.head_ne (c := '+') (.inl rfl)
      cases rest with
      | nil => rfl
      | cons c rest => simp [spanSign, hMinus c rfl, hPlus c rfl]
  | cons c text =>
      by_cases hMinus : c = '-'
      · subst hMinus
        rfl
      · by_cases hPlus : c = '+'
        · subst hPlus
          rfl
        · simp [spanSign, hMinus, hPlus]

theorem readFraction?_behind :
    readFraction? (text ++ rest) =
      (readFraction? text).map fun found => (found.1, found.2 ++ rest) := by
  cases text with
  | nil =>
      have hPoint := hRest.head_ne (c := '.') (.inl rfl)
      cases rest with
      | nil => rfl
      | cons c rest => simp [readFraction?, hPoint c rfl]
  | cons c text =>
      by_cases hPoint : c = '.'
      · subst hPoint
        simp only [List.cons_append, readFraction?, spanDigits_behind hRest]
        split <;> rfl
      · simp [readFraction?, hPoint]

theorem readPowerDigits?_behind :
    readPowerDigits? (text ++ rest) =
      (readPowerDigits? text).map fun found => (found.1, found.2 ++ rest) := by
  simp only [readPowerDigits?, spanSign_behind hRest, spanDigits_behind hRest]
  split <;> rfl

theorem readPower?_behind :
    readPower? (text ++ rest) =
      (readPower? text).map fun found => (found.1, found.2 ++ rest) := by
  cases text with
  | nil =>
      have hLower := hRest.head_ne (c := 'e') (.inl rfl)
      have hUpper := hRest.head_ne (c := 'E') (.inr rfl)
      cases rest with
      | nil => rfl
      | cons c rest => simp [readPower?, hLower c rfl, hUpper c rfl]
  | cons c text =>
      by_cases hLower : c = 'e'
      · subst hLower
        exact readPowerDigits?_behind hRest text
      · by_cases hUpper : c = 'E'
        · subst hUpper
          exact readPowerDigits?_behind hRest text
        · simp [readPower?, hLower, hUpper]

theorem readNumber?_behind :
    readNumber? (text ++ rest) =
      (readNumber? text).map fun found => (found.1, found.2 ++ rest) := by
  simp only [readNumber?, spanMinus_behind hRest, spanDigits_behind hRest,
    readFraction?_behind hRest]
  split
  · cases readFraction? (spanDigits (spanMinus text).2).2 with
    | none => rfl
    | some fraction =>
        simp only [Option.map_some, Option.bind_some, readPower?_behind hRest]
        cases readPower? fraction.2 with
        | none => rfl
        | some power => simp only [Option.map_some, Option.bind_some, Option.map_map]; rfl
  · rfl

end Behind

/-! ### Whole numbers -/

/-- The digits of a number that is not zero do not begin with a zero. -/
theorem head_toDigits_ne_zero {n : Nat} (hPositive : 0 < n) :
    ∀ c ∈ (Nat.toDigits 10 n).head?, c ≠ '0' := by
  induction n using Nat.strongRecOn with
  | _ n ih =>
      by_cases hSmall : n < 10
      · have hDigit : ∀ d < 10, 0 < d → Nat.digitChar d ≠ '0' := by decide
        intro c hHead
        rw [Nat.toDigits_of_lt_base hSmall] at hHead
        cases hHead
        exact hDigit n hSmall hPositive
      · intro c hHead
        have hLess : n / 10 < n := by omega
        have hRest : 0 < n / 10 := by omega
        rw [Nat.toDigits_of_base_le (by decide) (by omega),
          List.head?_append_of_ne_nil _ Nat.toDigits_ne_nil] at hHead
        exact ih (n / 10) hLess hRest c hHead

theorem wellFormedWhole_toDigits (n : Nat) : wellFormedWhole (Nat.toDigits 10 n) = true := by
  by_cases hZero : n = 0
  · subst hZero
    rfl
  · have hHead := head_toDigits_ne_zero (Nat.pos_of_ne_zero hZero)
    have hSome : Nat.toDigits 10 n ≠ [] := Nat.toDigits_ne_nil
    generalize Nat.toDigits 10 n = digits at hHead hSome
    match digits with
    | [] => exact absurd rfl hSome
    | [_] => rfl
    | first :: _ :: _ => simpa [wellFormedWhole] using hHead

theorem Whole.ofInt?_value (n : Whole) : Whole.ofInt? n.value = some n :=
  dif_pos ⟨n.low_le, n.lt_high⟩

theorem spanMinus_writeInteger (n : Int) :
    spanMinus (Decimal.writeInteger n) = (decide (n < 0), Nat.toDigits 10 n.natAbs) := by
  have hNumeral := Decimal.isNumeral_toDigits n.natAbs
  unfold Decimal.writeInteger
  by_cases hNegative : n < 0
  · rw [if_pos hNegative, decide_eq_true hNegative]
    rfl
  · rw [if_neg hNegative, decide_eq_false hNegative, List.nil_append]
    cases hDigits : Nat.toDigits 10 n.natAbs with
    | nil => exact absurd hDigits hNumeral.ne_nil
    | cons c cs =>
        have hMinus : c ≠ '-' := by
          apply Decimal.ne_of_isDigit (hNumeral.isDigit c _) (by decide)
          rw [hDigits]
          exact List.mem_cons_self
        simp [spanMinus, hMinus]

theorem readNumber?_writeInteger (n : Whole) :
    readNumber? (Value.integer n).write = some (.integer n, []) := by
  have hNumeral := Decimal.isNumeral_toDigits n.value.natAbs
  have hInteger : integerOfDigits? (decide (n.value < 0)) (Nat.toDigits 10 n.value.natAbs) =
      some (.integer n) := by
    have hSize : (if n.value < 0 then -(n.value.natAbs : Int) else n.value.natAbs) = n.value := by
      split <;> omega
    have hSign : ¬(n.value < 0 ∧ (n.value.natAbs : Int) = 0) := by omega
    simp only [integerOfDigits?, Decimal.digitsValue_toDigits, decide_eq_true_eq, hSize,
      Whole.ofInt?_value, Bool.and_eq_true, hSign, if_false]
  simp only [readNumber?, Value.write, spanMinus_writeInteger, hNumeral.spanDigits_eq,
    wellFormedWhole_toDigits, if_true, readFraction?, readPower?, Option.bind_some,
    numberOfParts?, hInteger, Option.map_some]

/-! ### Floating numbers -/

def Finite.ReadsBack (x : Finite) : Prop :=
  readNumber? (Value.float x).write = some (.float x, [])

instance (x : Finite) : Decidable x.ReadsBack :=
  inferInstanceAs (Decidable (readNumber? (Value.float x).write = some (.float x, [])))

end Json
end RecordFilter

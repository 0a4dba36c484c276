/-
Stamps: a day and a time written in digits.

A stamp has a year of four digits and five fields of two, the most significant first, with
one separator between neighbours.  Since every field has its width, texts of stamps are
ordered like the numbers in their fields.
-/
import Mathlib
import RecordFilter.Decimal.Literal
import RecordFilter.Proofs.Date.Moments
import RecordFilter.Text.Order

namespace RecordFilter

open Decimal (digitValue digitsValue)

/-! ### Digits -/

theorem Decimal.compare_mul_add {base m n i j : Nat} (hLeft : i < base) (hRight : j < base) :
    compare (base * m + i) (base * n + j) = (compare m n).then (compare i j) := by
  have hEnds {k l : Nat} (hLess : k < l) : base * k + base ≤ base * l := by
    rw [← Nat.mul_succ]
    exact Nat.mul_le_mul_left base hLess
  apply compare_eq_then
  · intro hLess
    have hEnd := hEnds hLess
    omega
  · intro hMore
    have hEnd := hEnds hMore
    omega
  · rintro rfl
    exact compare_add_left _ i j

theorem Decimal.toNat_of_isDigit {c : Char} (hDigit : c.isDigit = true) :
    c.toNat = 48 + digitValue c ∧ digitValue c < 10 := by
  have hBounds : 48 ≤ c.toNat ∧ c.toNat ≤ 57 := Char.isDigit_iff_toNat.mp hDigit
  change c.toNat = 48 + (c.toNat - 48) ∧ c.toNat - 48 < 10
  omega

theorem Decimal.digitsValue_lt {digits : List Char} (hDigits : ∀ c ∈ digits, c.isDigit = true)
    (high : Nat) : digitsValue high digits < (high + 1) * 10 ^ digits.length := by
  induction digits generalizing high with
  | nil => simp [digitsValue]
  | cons c digits ih =>
      have hFirst := (toNat_of_isDigit (hDigits c List.mem_cons_self)).2
      have hRest := ih (fun d hMember => hDigits d (List.mem_cons_of_mem c hMember))
        (10 * high + digitValue c)
      calc digitsValue high (c :: digits)
          < (10 * high + digitValue c + 1) * 10 ^ digits.length := hRest
        _ ≤ (10 * (high + 1)) * 10 ^ digits.length :=
            Nat.mul_le_mul_right _ (by omega)
        _ = (high + 1) * 10 ^ (c :: digits).length := by
            rw [List.length_cons, Nat.pow_succ]
            ring

namespace Text

theorem order_cons (c d : Char) (cs ds : List Char) :
    order (c :: cs) (d :: ds) = (compare c.toNat d.toNat).then (order cs ds) := by
  rw [order, Nat.compare_eq_ite_lt]
  split
  · rfl
  · split <;> rfl

theorem order_eq_lt_iff {left right : List Char} : order left right = .lt ↔ left < right := by
  induction left generalizing right with
  | nil => cases right <;> simp [order]
  | cons c cs ih =>
      cases right with
      | nil => simp [order]
      | cons d ds =>
          rw [order_cons, Ordering.then_eq_lt, Nat.compare_eq_lt, Nat.compare_eq_eq, ih,
            List.cons_lt_cons_iff, Char.toNat_inj, Char.lt_def, UInt32.lt_iff_toNat_lt]
          rfl

/-- Digits in front decide before what follows them, like the numbers that they spell after
`m` and `n`. -/
theorem order_digits {left right : List Char} (hLeft : ∀ c ∈ left, c.isDigit = true)
    (hRight : ∀ c ∈ right, c.isDigit = true) (hLength : left.length = right.length)
    (m n : Nat) (cs ds : List Char) :
    (compare m n).then (order (left ++ cs) (right ++ ds)) =
      (compare (digitsValue m left) (digitsValue n right)).then (order cs ds) := by
  induction left generalizing right m n with
  | nil =>
      rw [List.length_nil, eq_comm, List.length_eq_zero_iff] at hLength
      subst hLength
      rfl
  | cons c left ih =>
      cases right with
      | nil => cases hLength
      | cons d right =>
          obtain ⟨hFirst, hFirstValue⟩ := Decimal.toNat_of_isDigit (hLeft c List.mem_cons_self)
          obtain ⟨hOther, hOtherValue⟩ := Decimal.toNat_of_isDigit (hRight d List.mem_cons_self)
          have hValues : compare c.toNat d.toNat = compare (digitValue c) (digitValue d) := by
            rw [hFirst, hOther, compare_add_left]
          -- the numbers in front grow by one digit, whose order is that of its character
          have hRest := ih (fun e hMember => hLeft e (List.mem_cons_of_mem c hMember))
            (fun e hMember => hRight e (List.mem_cons_of_mem d hMember))
            (Nat.succ.inj hLength) (10 * m + digitValue c) (10 * n + digitValue d)
          rw [Decimal.compare_mul_add (by omega) (by omega), Ordering.then_assoc] at hRest
          rw [List.cons_append, List.cons_append, order_cons, hValues]
          exact hRest

end Text

/-! ### Fields -/

namespace Date

/-- A number written with `width` digits. -/
structure Digits (width : Nat) where
  chars : List Char
  length_eq : chars.length = width
  isDigit : ∀ c ∈ chars, c.isDigit = true

namespace Digits

variable {width : Nat} {a b : Digits width}

def value (a : Digits width) : Nat := digitsValue 0 a.chars

def zero (width : Nat) : Digits width where
  chars := List.replicate width '0'
  length_eq := List.length_replicate
  isDigit := by
    intro c hMember
    rw [List.eq_of_mem_replicate hMember]
    rfl

theorem order_append (a b : Digits width) (cs ds : List Char) :
    Text.order (a.chars ++ cs) (b.chars ++ ds) =
      (compare a.value b.value).then (Text.order cs ds) :=
  Text.order_digits a.isDigit b.isDigit (a.length_eq.trans b.length_eq.symm) 0 0 cs ds

theorem value_inj : a.value = b.value ↔ a = b := by
  constructor
  · intro hValue
    have hOrder := order_append a b [] []
    rw [List.append_nil, List.append_nil, Nat.compare_eq_eq.mpr hValue] at hOrder
    obtain ⟨chars, _, _⟩ := a
    obtain ⟨chars', _, _⟩ := b
    obtain rfl : chars = chars' := (Text.order_eq_iff chars chars').mp hOrder
    rfl
  · rintro rfl
    rfl

theorem value_lt (a : Digits width) : a.value < 10 ^ width := by
  have hBelow := Decimal.digitsValue_lt a.isDigit 0
  rwa [a.length_eq, Nat.zero_add, Nat.one_mul] at hBelow

end Digits

/-! ### Stamps -/

/-- A text `dddd-dd-dd dd:dd:dd` by its fields. -/
structure Stamp where
  year : Digits 4
  month : Digits 2
  day : Digits 2
  hour : Digits 2
  minute : Digits 2
  second : Digits 2

namespace Stamp

variable {a b : Stamp}

def chars (a : Stamp) : List Char :=
  a.year.chars ++ '-' :: (a.month.chars ++ '-' :: (a.day.chars ++ ' ' ::
    (a.hour.chars ++ ':' :: (a.minute.chars ++ ':' :: a.second.chars))))

def text (a : Stamp) : String := String.ofList a.chars

def time (a : Stamp) : Nat := 100 * (100 * a.hour.value + a.minute.value) + a.second.value

def dayOrder (a b : Stamp) : Ordering :=
  (compare a.year.value b.year.value).then
    ((compare a.month.value b.month.value).then (compare a.day.value b.day.value))

theorem dayOrder_eq_iff :
    a.dayOrder b = .eq ↔ a.year = b.year ∧ a.month = b.month ∧ a.day = b.day := by
  simp only [dayOrder, Ordering.then_eq_eq, Nat.compare_eq_eq, Digits.value_inj]

theorem compare_time (a b : Stamp) :
    compare a.time b.time = (compare a.hour.value b.hour.value).then
      ((compare a.minute.value b.minute.value).then (compare a.second.value b.second.value)) := by
  have hMinutes := @Decimal.compare_mul_add 100 a.hour.value b.hour.value _ _
    a.minute.value_lt b.minute.value_lt
  rw [← Ordering.then_assoc, ← hMinutes]
  exact Decimal.compare_mul_add a.second.value_lt b.second.value_lt

theorem order_chars (a b : Stamp) :
    Text.order a.chars b.chars = (a.dayOrder b).then (compare a.time b.time) := by
  have hSeparator (c : Char) (cs ds : List Char) :
      Text.order (c :: cs) (c :: ds) = Text.order cs ds := by
    rw [Text.order_cons, Nat.compare_eq_eq.mpr rfl]
    rfl
  have hSeconds : Text.order a.second.chars b.second.chars =
      compare a.second.value b.second.value := by
    have hOrder := Digits.order_append a.second b.second [] []
    simpa [Text.order] using hOrder
  simp only [chars, Digits.order_append, hSeparator, hSeconds, compare_time, dayOrder,
    Ordering.then_assoc]

end Stamp
end Date
end RecordFilter

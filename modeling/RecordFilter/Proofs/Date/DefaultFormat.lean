/-
Dates in the default format.

A text of the shape of the default format without a sign is a `Stamp`.  The pattern of the
format asks each field for its range and the fields for a day.  It takes a second of 60,
which is no time of day, so such a stamp counts as the beginning of its day.
`Stamp.counted` is the stamp that a stamp counts as; the moments of two stamps are ordered
like the texts of the stamps that they count as.
-/
import Mathlib
import RecordFilter.Date.Description
import RecordFilter.Date.Reading
import RecordFilter.Proofs.Date.Stamp
import RecordFilter.Proofs.Eval.Agreement
import RecordFilter.Settings.Load

namespace RecordFilter
namespace Date

/-! ### The pattern -/

def defaultPattern : Pattern :=
  [.component (.year .zero .full false false), .literal [45],
    .component (.month .zero .numerical true), .literal [45],
    .component (.day .zero), .literal [32],
    .component (.hour .zero false), .literal [58],
    .component (.minute .zero), .literal [58],
    .component (.second .zero)]

theorem ofText_defaultDateFormat :
    Pattern.ofText Settings.defaultDateFormat = .ok defaultPattern := by
  cbv

/-! ### Reading fields -/

theorem bytes_digits {digits : List Char} (hDigits : ∀ c ∈ digits, c.isDigit = true) :
    Text.bytes digits = digits.map fun c => c.val.toUInt8 := by
  induction digits with
  | nil => rfl
  | cons c digits ih =>
      have hCode := Decimal.toNat_of_isDigit (hDigits c List.mem_cons_self)
      have hSmall : c.utf8Size = 1 := by
        rw [Char.utf8Size_eq_one_iff, UInt32.le_iff_toNat_le]
        change c.toNat ≤ 127
        omega
      have hRest := ih fun d hMember => hDigits d (List.mem_cons_of_mem c hMember)
      unfold Text.bytes at hRest ⊢
      rw [List.flatMap_cons, String.utf8EncodeChar_eq_singleton hSmall, hRest]
      rfl

theorem toNat_digitByte {c : Char} (hDigit : c.isDigit = true) :
    c.val.toUInt8.toNat = 48 + Decimal.digitValue c := by
  have hCode := Decimal.toNat_of_isDigit hDigit
  have hByte : c.val.toUInt8.toNat = c.toNat % 2 ^ 8 := UInt32.toNat_toUInt8 c.val
  omega

theorem frontDigits_digits {digits : List Char} (hDigits : ∀ c ∈ digits, c.isDigit = true)
    (rest : List UInt8) :
    frontDigits digits.length (Text.bytes digits ++ rest) = Text.bytes digits := by
  rw [bytes_digits hDigits]
  induction digits with
  | nil => cases rest <;> rfl
  | cons c digits ih =>
      have hByte := toNat_digitByte (hDigits c List.mem_cons_self)
      have hCode := Decimal.toNat_of_isDigit (hDigits c List.mem_cons_self)
      have hDigit : isDigitByte c.val.toUInt8 = true := by
        simp only [isDigitByte, Bool.and_eq_true, decide_eq_true_eq, UInt8.le_iff_toNat_le]
        change 48 ≤ c.val.toUInt8.toNat ∧ c.val.toUInt8.toNat ≤ 57
        omega
      have hRest := ih fun d hMember => hDigits d (List.mem_cons_of_mem c hMember)
      simp only [List.length_cons, List.map_cons, List.cons_append, frontDigits, hDigit, if_true,
        hRest]

theorem digitsNumber_digits {digits : List Char} (hDigits : ∀ c ∈ digits, c.isDigit = true) :
    digitsNumber (Text.bytes digits) = Decimal.digitsValue 0 digits := by
  rw [bytes_digits hDigits, digitsNumber, Decimal.digitsValue, List.foldl_map]
  apply List.foldl_ext
  intro n c hMember
  rw [toNat_digitByte (hDigits c hMember), Nat.add_sub_cancel_left]

namespace Digits

variable {width : Nat}

theorem readPadded? (a : Digits width) (rest : List UInt8) :
    Date.readPadded? .zero width width (Text.bytes a.chars ++ rest) = some (a.value, rest) := by
  have hLength : (Text.bytes a.chars).length = width := by
    rw [bytes_digits a.isDigit, List.length_map, a.length_eq]
  have hFront := frontDigits_digits a.isDigit rest
  rw [a.length_eq] at hFront
  simp only [Date.readPadded?, readDigits?, hFront, hLength, Nat.lt_irrefl, if_false,
    digitsNumber_digits a.isDigit, List.drop_left' hLength]
  rfl

theorem readSign (a : Digits (width + 1)) (rest : List UInt8) :
    Date.readSign (Text.bytes a.chars ++ rest) = (none, Text.bytes a.chars ++ rest) := by
  obtain ⟨_ | ⟨c, digits⟩, hLength, hDigits⟩ := a
  · cases hLength
  · have hByte := toNat_digitByte (hDigits c List.mem_cons_self)
    have hOther {code : UInt8} (hCode : code.toNat < 48) : c.val.toUInt8 ≠ code := by
      rintro rfl
      omega
    change Date.readSign (Text.bytes (c :: digits) ++ rest) = _
    rw [bytes_digits hDigits, List.map_cons, List.cons_append, Date.readSign,
      if_neg (hOther (by decide)), if_neg (hOther (by decide))]

end Digits

/-! ### Reading stamps -/

section Items

variable {items : List Item} {found : Found} {rest : List UInt8}

theorem readItems?_literal (b : UInt8) :
    readItems? (.literal [b] :: items) found (b :: rest) = readItems? items found rest := by
  simp [readItems?, Item.read?]

theorem readItems?_number {component : Component} {width low high : Nat} {set : Nat → Found}
    {read : Found × List UInt8}
    (hReads : ∀ input, readComponent? component found input =
      within low high set (readPadded? .zero width width input)) (a : Digits width) :
    readItems? (.component component :: items) found (Text.bytes a.chars ++ rest) = some read ↔
      (low ≤ a.value ∧ a.value ≤ high) ∧ readItems? items (set a.value) rest = some read := by
  simp only [readItems?, Item.read?, hReads, a.readPadded?, within, Bool.and_eq_true,
    decide_eq_true_eq]
  split <;> simp_all

end Items

namespace Stamp

def found (a : Stamp) : Found where
  year := { whole := some a.year.value }
  month := some a.month.value
  day := some a.day.value
  hour := some a.hour.value
  minute := some a.minute.value
  second := some a.second.value

structure InRange (a : Stamp) : Prop where
  month : 1 ≤ a.month.value ∧ a.month.value ≤ 12
  day : 1 ≤ a.day.value ∧ a.day.value ≤ 31
  hour : a.hour.value ≤ 23
  minute : a.minute.value ≤ 59
  second : a.second.value ≤ 60

theorem readItems?_year (a : Stamp) (items : List Item) (rest : List UInt8) :
    readItems? (.component (.year .zero .full false false) :: items) {}
      (Text.bytes a.year.chars ++ rest) =
        readItems? items { year := { whole := some (a.year.value : Int) } } rest := by
  simp only [readItems?, Item.read?, readComponent?, readYear?, readSigned?, a.year.readSign,
    a.year.readPadded?]
  rfl

theorem bytes_chars (a : Stamp) :
    Text.bytes a.chars = Text.bytes a.year.chars ++ 45 :: (Text.bytes a.month.chars ++ 45 ::
      (Text.bytes a.day.chars ++ 32 :: (Text.bytes a.hour.chars ++ 58 ::
        (Text.bytes a.minute.chars ++ 58 :: (Text.bytes a.second.chars ++ []))))) := by
  have hCons (c : Char) (cs : List Char) :
      Text.bytes (c :: cs) = String.utf8EncodeChar c ++ Text.bytes cs := rfl
  simp only [chars, Text.bytes_append, hCons, List.append_nil]
  rfl

theorem found?_chars {a : Stamp} {found : Found}
    (hFound : defaultPattern.found? a.chars = some found) : found = a.found ∧ a.InRange := by
  have hRead : readItems? defaultPattern {} (Text.bytes a.chars) = some (found, []) := by
    unfold Pattern.found? at hFound
    split at hFound
    · rename_i hRead
      cases hFound
      exact hRead
    · cases hFound
  rw [bytes_chars, defaultPattern, readItems?_year, readItems?_literal,
    readItems?_number (fun _ => rfl), readItems?_literal,
    readItems?_number (fun _ => rfl), readItems?_literal,
    readItems?_number (fun _ => rfl), readItems?_literal,
    readItems?_number (fun _ => rfl), readItems?_literal,
    readItems?_number (fun _ => rfl), readItems?] at hRead
  obtain ⟨hMonth, hDay, hHour, hMinute, hSecond, hFound⟩ := hRead
  cases hFound
  exact ⟨rfl, hMonth, hDay, hHour.2, hMinute.2, hSecond.2⟩

def clock (a : Stamp) : Clock where
  hour := a.hour.value
  minute := a.minute.value
  second := a.second.value
  nanosecond := 0

/-- The stamp that a stamp counts as: itself, or the beginning of its day if its second
is 60. -/
def counted (a : Stamp) : Stamp :=
  if a.second.value = 60 then { a with hour := .zero 2, minute := .zero 2, second := .zero 2 }
  else a

theorem InRange.clock?_found {a : Stamp} (hRange : a.InRange) :
    a.found.clock?.getD .midnight = a.counted.clock := by
  have hClock : a.found.clock? =
      Clock.of? a.hour.value a.minute.value a.second.value 0 := rfl
  have hHour := hRange.hour
  have hMinute := hRange.minute
  have hSecond := hRange.second
  rw [hClock, counted]
  split
  · rename_i hLeap
    rw [hLeap, Clock.of?, if_neg (by simp)]
    rfl
  · rw [Clock.of?, if_pos]
    · rfl
    · simp only [Bool.and_eq_true, decide_eq_true_eq]
      omega

/-- A stamp that is a date is a moment of the day that it names, at the time of the stamp
that it counts as. -/
theorem moment?_chars {a : Stamp} {moment : Moment}
    (hMoment : defaultPattern.moment? a.chars = some moment) :
    ∃ day, Day.ofMonthDay? a.year.value a.month.value a.day.value = some day ∧
      moment = ⟨day, a.counted.clock⟩ := by
  unfold Pattern.moment? at hMoment
  split at hMoment
  · rename_i found hFound
    obtain ⟨rfl, hRange⟩ := found?_chars hFound
    rw [Found.moment?_eq_map, hRange.clock?_found, Option.map_eq_some_iff] at hMoment
    obtain ⟨day, hDay, rfl⟩ := hMoment
    exact ⟨day, hDay, rfl⟩
  · cases hMoment

theorem counted_dayOrder (a b : Stamp) : a.counted.dayOrder b.counted = a.dayOrder b := by
  simp only [counted]
  split <;> split <;> rfl

theorem counted_time (a : Stamp) :
    a.counted.time = if a.second.value = 60 then 0 else a.time := by
  simp only [counted]
  split <;> rfl

section Order

variable {a b : Stamp} {left right : Moment}

theorem order_moments (hLeft : defaultPattern.moment? a.chars = some left)
    (hRight : defaultPattern.moment? b.chars = some right) :
    left.order right = Text.order a.counted.chars b.counted.chars := by
  obtain ⟨day, hDay, rfl⟩ := moment?_chars hLeft
  obtain ⟨day', hDay', rfl⟩ := moment?_chars hRight
  have hDays : (compare day.year day'.year).then (compare day.ordinal day'.ordinal) =
      a.dayOrder b := by
    rw [Day.year_of_ofMonthDay? hDay, Day.year_of_ofMonthDay? hDay', compare_intCast, dayOrder]
    cases hOrder : compare a.year.value b.year.value with
    | lt | gt => rfl
    | eq =>
        rw [Nat.compare_eq_eq.mp hOrder] at hDay
        rw [Day.compare_ordinal hDay hDay']
  have hEnd : (compare (0 : Nat) 0).then (orderParts [] []) = .eq := rfl
  rw [order_chars, counted_dayOrder, compare_time, ← hDays]
  simp only [Moment.order, Moment.parts, orderParts_cons, compare_intCast, clock, hEnd, Ordering.then_eq,
    Ordering.then_assoc]

/-- Two stamps count as stamps of the same order exactly if the later of them, when both are
of one day, has no second of 60. -/
theorem order_counted_iff :
    Text.order a.counted.chars b.counted.chars = Text.order a.chars b.chars ↔
      (a.year = b.year ∧ a.month = b.month ∧ a.day = b.day →
        (a.chars < b.chars → b.second.value ≠ 60) ∧
          (b.chars < a.chars → a.second.value ≠ 60)) := by
  rw [← dayOrder_eq_iff, ← Text.order_eq_lt_iff, ← Text.order_eq_lt_iff,
    ← Text.order_swap a.chars, Ordering.swap_eq_lt, order_chars, order_chars, counted_dayOrder]
  cases a.dayOrder b with
  | lt | gt => simp
  | eq =>
      -- times of one number have one second, and a second of 60 is behind midnight
      have hSecond (c : Stamp) : c.time % 100 = c.second.value := by
        have hBelow := c.second.value_lt
        unfold time
        omega
      have hLeft := hSecond a
      have hRight := hSecond b
      simp only [Ordering.eq_then, forall_const, counted_time]
      rcases Nat.lt_trichotomy a.time b.time with hOrder | hOrder | hOrder
      · rw [Nat.compare_eq_lt.mpr hOrder, Nat.compare_eq_lt]
        simp only [ne_eq, forall_const, reduceCtorEq, IsEmpty.forall_iff, and_true]
        split <;> split <;> omega
      · rw [Nat.compare_eq_eq.mpr hOrder, Nat.compare_eq_eq]
        simp only [reduceCtorEq, ne_eq, IsEmpty.forall_iff, and_self, iff_true]
        split <;> split <;> omega
      · rw [Nat.compare_eq_gt.mpr hOrder, Nat.compare_eq_gt]
        simp only [reduceCtorEq, ne_eq, IsEmpty.forall_iff, forall_const, true_and]
        split <;> split <;> omega

end Order

end Stamp

end Date

namespace Evaluator

open Date (Stamp)
open Json (Value)

variable {evaluator : Evaluator} {actual : Value} {value : Atom}

theorem pattern_of_defaultDateFormat
    (hEvaluator : ofFormat Settings.defaultDateFormat = .ok evaluator) :
    evaluator.pattern = Date.defaultPattern := by
  rw [ofFormat, Date.ofText_defaultDateFormat] at hEvaluator
  cases hEvaluator
  rfl

/-- The four comparisons by order follow the order of two texts exactly if the value and the
filter value are ordered like the two texts. -/
theorem ordered_iff_text_order {order : Ordering} {x y : String}
    (hOrder : evaluator.order actual value = .ok (some order)) :
    (evaluator.ordered [.gt] actual value = .ok (decide (y < x)) ∧
      evaluator.ordered [.gt, .eq] actual value = .ok (decide (y ≤ x)) ∧
      evaluator.ordered [.lt] actual value = .ok (decide (x < y)) ∧
      evaluator.ordered [.lt, .eq] actual value = .ok (decide (x ≤ y))) ↔
      order = Text.order x.toList y.toList := by
  have hLess : x < y ↔ Text.order x.toList y.toList = .lt :=
    String.lt_iff_toList_lt.trans Text.order_eq_lt_iff.symm
  have hMore : y < x ↔ Text.order x.toList y.toList = .gt := by
    rw [String.lt_iff_toList_lt, ← Text.order_eq_lt_iff, ← Text.order_swap x.toList,
      Ordering.swap_eq_lt]
  have hNotMore : x ≤ y ↔ Text.order x.toList y.toList ≠ .gt := by
    rw [← String.not_lt, hMore]
  have hNotLess : y ≤ x ↔ Text.order x.toList y.toList ≠ .lt := by
    rw [← String.not_lt, hLess]
  simp only [ordered, hOrder, Except.ok.injEq, hLess, hMore, hNotLess, hNotMore]
  cases order <;> cases Text.order x.toList y.toList <;> decide

/-- Two stamps that are dates in the default format are ordered like the stamps that they
count as.  That is the order of their texts exactly if the later one, when both are of one
day, has no second of 60. -/
theorem default_dates_in_text_order_iff {record : Value} {field : String}
    (hEvaluator : ofFormat Settings.defaultDateFormat = .ok evaluator) (a b : Stamp)
    (hField : Eval.resolve record field = .ok (some (.text a.text)))
    (hLeft : evaluator.moment? a.text.toList ≠ none)
    (hRight : evaluator.moment? b.text.toList ≠ none) :
    let orderedAs (x y : String) : Prop :=
      evaluator.test record (.leaf field "gt" (.text b.text)) = .ok (decide (y < x)) ∧
        evaluator.test record (.leaf field "gte" (.text b.text)) = .ok (decide (y ≤ x)) ∧
        evaluator.test record (.leaf field "lt" (.text b.text)) = .ok (decide (x < y)) ∧
        evaluator.test record (.leaf field "lte" (.text b.text)) = .ok (decide (x ≤ y))
    orderedAs a.counted.text b.counted.text ∧
      (orderedAs a.text b.text ↔
        (a.year = b.year ∧ a.month = b.month ∧ a.day = b.day →
          (a.text < b.text → b.second.value ≠ 60) ∧
            (b.text < a.text → a.second.value ≠ 60))) := by
  obtain ⟨left, hLeft⟩ := Option.ne_none_iff_exists'.mp hLeft
  obtain ⟨right, hRight⟩ := Option.ne_none_iff_exists'.mp hRight
  have hOrder := order_dates hLeft hRight
  have hTexts (c : Stamp) : c.text.toList = c.chars := String.toList_ofList
  rw [moment?, pattern_of_defaultDateFormat hEvaluator, hTexts] at hLeft hRight
  rw [Stamp.order_moments hLeft hRight] at hOrder
  obtain ⟨hGreater, hNotLess, hLess, hNotGreater⟩ :=
    @test_orderings evaluator record _ field hField (.text b.text)
  simp only [hGreater, hNotLess, hLess, hNotGreater, ordered_iff_text_order hOrder, hTexts]
  refine ⟨trivial, ?_⟩
  rw [Stamp.order_counted_iff, String.lt_iff_toList_lt, String.lt_iff_toList_lt, hTexts, hTexts]

/-- Ten o'clock and sixty seconds is before five o'clock of the same day, though its text is
behind. -/
theorem default_dates_second_sixty :
    let evaluator : Evaluator := ⟨Settings.defaultDateFormat, Date.defaultPattern⟩
    let late : Stamp := ⟨⟨"2024".toList, rfl, by simp⟩, ⟨"01".toList, rfl, by simp⟩,
      ⟨"01".toList, rfl, by simp⟩, ⟨"10".toList, rfl, by simp⟩,
      ⟨"00".toList, rfl, by simp⟩, ⟨"60".toList, rfl, by simp⟩⟩
    let early : Stamp := { late with
      hour := ⟨"05".toList, rfl, by simp⟩
      second := ⟨"00".toList, rfl, by simp⟩ }
    let record : Value := .object [("at", .text late.text)]
    late.text = "2024-01-01 10:00:60" ∧ early.text = "2024-01-01 05:00:00" ∧
      late.counted.text = "2024-01-01 00:00:00" ∧ early.text < late.text ∧
      evaluator.test record (.leaf "at" "gt" (.text early.text)) = .ok false ∧
      evaluator.test record (.leaf "at" "lt" (.text early.text)) = .ok true := by
  intro evaluator late early record
  have hEvaluator : ofFormat Settings.defaultDateFormat = .ok evaluator := by
    rw [ofFormat, Date.ofText_defaultDateFormat]
  have hField : Eval.resolve record "at" = .ok (some (.text late.text)) := by cbv
  have hLate : evaluator.moment? late.text.toList ≠ none := by decide +kernel
  have hEarly : evaluator.moment? early.text.toList ≠ none := by decide +kernel
  obtain ⟨⟨hGreater, -, hLess, -⟩, -⟩ :=
    default_dates_in_text_order_iff hEvaluator late early hField hLate hEarly
  refine ⟨by decide +kernel, by decide +kernel, by decide +kernel, by decide +kernel, ?_, ?_⟩
  · rw [hGreater]
    decide +kernel
  · rw [hLess]
    decide +kernel

end Evaluator
end RecordFilter

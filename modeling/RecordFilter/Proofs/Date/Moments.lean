/-
The order of moments.

Moments are ordered by their parts, and are tied only with themselves.  A day counts in the
order by its number in the year.  Within one year the numbers are ordered like the months
and, in one month, like the days of the month, since each month ends before the next one
begins.
-/
import Mathlib
import RecordFilter.Date.Found

namespace RecordFilter

/-! ### Numbers in two steps -/

theorem compare_add_left (k i j : Nat) : compare (k + i) (k + j) = compare i j := by
  simp only [Nat.compare_eq_ite_lt, Nat.add_lt_add_iff_left]

theorem compare_intCast (m n : Nat) : compare (m : Int) (n : Int) = compare m n := by
  simp only [Int.compare_eq_ite_lt, Nat.compare_eq_ite_lt, Int.ofNat_lt]

/-- If different numbers `m` and `n` order `k` and `l` their own way, the order of `k` and
`l` is that of `m` and `n` and then the one that is left for equal `m` and `n`. -/
theorem compare_eq_then {m n k l : Nat} {order : Ordering} (hLess : m < n → k < l)
    (hMore : n < m → l < k) (hSame : m = n → compare k l = order) :
    compare k l = (compare m n).then order := by
  rcases Nat.lt_trichotomy m n with hOrder | hOrder | hOrder
  · rw [Nat.compare_eq_lt.mpr hOrder, Nat.compare_eq_lt.mpr (hLess hOrder)]
    rfl
  · rw [Nat.compare_eq_eq.mpr hOrder, hSame hOrder]
    rfl
  · rw [Nat.compare_eq_gt.mpr hOrder, Nat.compare_eq_gt.mpr (hMore hOrder)]
    rfl

namespace Date

/-! ### Lists of parts -/

theorem orderParts_cons (a b : Int) (as bs : List Int) :
    orderParts (a :: as) (b :: bs) = (compare a b).then (orderParts as bs) := by
  rw [orderParts, Int.compare_eq_ite_lt]
  split
  · rfl
  · split <;> rfl

theorem orderParts_eq_iff {left right : List Int} :
    orderParts left right = .eq ↔ left = right := by
  induction left generalizing right with
  | nil => cases right <;> simp [orderParts]
  | cons a as ih =>
      cases right with
      | nil => simp [orderParts]
      | cons b bs =>
          rw [orderParts_cons, Ordering.then_eq_eq, Int.compare_eq_eq, ih, List.cons.injEq]

theorem Moment.order_eq_iff {left right : Moment} : left.order right = .eq ↔ left = right := by
  rw [order, orderParts_eq_iff]
  constructor
  · intro hParts
    obtain ⟨⟨year, ordinal⟩, ⟨hour, minute, second, nanosecond⟩⟩ := left
    obtain ⟨⟨year', ordinal'⟩, ⟨hour', minute', second', nanosecond'⟩⟩ := right
    simp only [parts, List.cons.injEq, Int.natCast_inj, and_true] at hParts
    obtain ⟨rfl, rfl, rfl, rfl, rfl, rfl⟩ := hParts
    rfl
  · rintro rfl
    rfl

theorem Found.moment?_eq_map (found : Found) :
    found.moment? = found.day?.map fun day => ⟨day, found.clock?.getD .midnight⟩ := by
  unfold moment?
  cases found.day? with
  | none => rfl
  | some day => cases found.clock? <;> rfl

/-! ### Days of a year -/

theorem daysBeforeMonth_succ (year : Int) {month : Nat} (hMonth : 1 ≤ month) :
    daysBeforeMonth year (month + 1) = daysBeforeMonth year month + monthLength year month := by
  have hCounted : (List.filter (0 < ·) [month]) = [month] := by
    simp [show 0 < month by omega]
  unfold daysBeforeMonth
  rw [List.range_succ, List.filter_append, hCounted, List.foldl_append]
  rfl

theorem daysBeforeMonth_add_le (year : Int) {month later : Nat} (hMonth : 1 ≤ month)
    (hLater : month < later) :
    daysBeforeMonth year month + monthLength year month ≤ daysBeforeMonth year later := by
  induction later, hLater using Nat.le_induction with
  | base => exact Nat.le_of_eq (daysBeforeMonth_succ year hMonth).symm
  | succ later hLess ih =>
      rw [daysBeforeMonth_succ year (by omega)]
      omega

namespace Day

variable {year : Int} {month day month' day' : Nat} {left right : Day}

theorem ofMonthDay?_eq_some_iff :
    ofMonthDay? year month day = some left ↔
      (1 ≤ month ∧ month ≤ 12 ∧ 1 ≤ day ∧ day ≤ monthLength year month) ∧
        ⟨year, daysBeforeMonth year month + day⟩ = left := by
  unfold ofMonthDay?
  simp only [Bool.and_eq_true, decide_eq_true_eq, and_assoc]
  split <;> simp_all

theorem year_of_ofMonthDay? (hDay : ofMonthDay? year month day = some left) :
    left.year = year := by
  obtain ⟨-, rfl⟩ := ofMonthDay?_eq_some_iff.mp hDay
  rfl

theorem compare_ordinal (hLeft : ofMonthDay? year month day = some left)
    (hRight : ofMonthDay? year month' day' = some right) :
    compare left.ordinal right.ordinal = (compare month month').then (compare day day') := by
  obtain ⟨⟨hMonth, -, hDay, hLength⟩, rfl⟩ := ofMonthDay?_eq_some_iff.mp hLeft
  obtain ⟨⟨hMonth', -, hDay', hLength'⟩, rfl⟩ := ofMonthDay?_eq_some_iff.mp hRight
  change compare (daysBeforeMonth year month + day) (daysBeforeMonth year month' + day') = _
  apply compare_eq_then
  · intro hLess
    have hEnds := daysBeforeMonth_add_le year hMonth hLess
    omega
  · intro hMore
    have hEnds := daysBeforeMonth_add_le year hMonth' hMore
    omega
  · rintro rfl
    exact compare_add_left _ day day'

end Day

end Date
end RecordFilter

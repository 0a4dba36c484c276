/-
The decimals that stand for a binary number.

The decimals that are read as one binary64 number form an interval around it.  The
intervals of different numbers have no point in common: two neighbours share an end,
but their significands are not both even, so the end belongs to one of them at most.
The shortest digits of a number lie in its interval, however the search for them ends.
-/
import Mathlib
import RecordFilter.Decimal.Shortest
import RecordFilter.Proofs.Decimal.Integer

namespace RecordFilter
namespace Decimal

/-! ### Exact values -/

def Scaled.value (d : Scaled) : ℚ := d.coefficient * 10 ^ d.power

def Binary.value (x : Binary) : ℚ := x.significand * 2 ^ x.power

theorem raised_cast (n base : Nat) (power : Int) :
    ((raised n base power : Nat) : ℚ) = n * (base : ℚ) ^ power.toNat := by
  rw [raised, Nat.pow_eq]
  push_cast
  rfl

theorem zpow_mul_toNat {b : ℚ} (hBase : b ≠ 0) (power : Int) :
    b ^ power * b ^ (-power).toNat = b ^ power.toNat := by
  rw [← zpow_natCast, ← zpow_natCast, ← zpow_add₀ hBase]
  congr 1
  omega

theorem compare_mul_right {a b c : ℚ} (hPositive : 0 < c) :
    compare (a * c) (b * c) = compare a b := by
  have hMono : StrictMono fun x : ℚ => x * c := strictMono_mul_right_of_pos hPositive
  rw [← cmp_eq_compare, ← cmp_eq_compare]
  exact hMono.cmp_map_eq a b

theorem compare_natCast (m n : Nat) : compare (m : ℚ) (n : ℚ) = compare m n := by
  rw [← cmp_eq_compare, ← cmp_eq_compare]
  exact Nat.strictMono_cast.cmp_map_eq m n

theorem Scaled.compareBinary_eq (d : Scaled) (n : Nat) (power : Int) :
    d.compareBinary n power = compare d.value (n * 2 ^ power) := by
  have hTen : (10 : ℚ) ^ d.power * 10 ^ (-d.power).toNat = 10 ^ d.power.toNat :=
    zpow_mul_toNat (by norm_num) d.power
  have hTwo : (2 : ℚ) ^ power * 2 ^ (-power).toNat = 2 ^ power.toNat :=
    zpow_mul_toNat (by norm_num) power
  have hLeft : ((raised (raised d.coefficient 10 d.power) 2 (-power) : Nat) : ℚ) =
      d.value * (10 ^ (-d.power).toNat * 2 ^ (-power).toNat) := by
    rw [raised_cast, raised_cast, Scaled.value]
    push_cast
    rw [← hTen]
    ring
  have hRight : ((raised (raised n 2 power) 10 (-d.power) : Nat) : ℚ) =
      n * 2 ^ power * (10 ^ (-d.power).toNat * 2 ^ (-power).toNat) := by
    rw [raised_cast, raised_cast]
    push_cast
    rw [← hTwo]
    ring
  rw [Scaled.compareBinary, ← compare_natCast, hLeft, hRight, compare_mul_right (by positivity)]

/-! ### The interval of a number -/

namespace Binary

def lowSteps (x : Binary) : Nat :=
  if x.narrowBelow then 4 * x.significand - 1 else 4 * x.significand - 2

def lowEnd (x : Binary) : ℚ := x.lowSteps * 2 ^ (x.power - 2)

def highEnd (x : Binary) : ℚ := (4 * x.significand + 2 : Nat) * 2 ^ (x.power - 2)

/-- A rational number is read as a binary number: it lies between the ends, which count
when the significand is even. -/
structure Covers (x : Binary) (r : ℚ) : Prop where
  low : x.lowEnd < r ∨ x.significand % 2 = 0 ∧ x.lowEnd = r
  high : r < x.highEnd ∨ x.significand % 2 = 0 ∧ r = x.highEnd

theorem standsFor_iff (x : Binary) (d : Scaled) : x.standsFor d = true ↔ x.Covers d.value := by
  have hLow := d.compareBinary_eq x.lowSteps (x.power - 2)
  have hHigh := d.compareBinary_eq (4 * x.significand + 2) (x.power - 2)
  have hLowEnd : (x.lowSteps : ℚ) * 2 ^ (x.power - 2) = x.lowEnd := rfl
  have hHighEnd : ((4 * x.significand + 2 : Nat) : ℚ) * 2 ^ (x.power - 2) = x.highEnd := rfl
  rw [hLowEnd] at hLow
  rw [hHighEnd] at hHigh
  rw [lowSteps] at hLow
  constructor
  · intro hStands
    simp only [standsFor, hLow, hHigh, Bool.and_eq_true, Bool.or_eq_true, beq_iff_eq,
      decide_eq_true_eq, compare_gt_iff_gt, compare_lt_iff_lt, compare_eq_iff_eq] at hStands
    exact ⟨hStands.1.imp id fun h => ⟨h.1, h.2.symm⟩, hStands.2⟩
  · rintro ⟨hAbove, hBelow⟩
    simp only [standsFor, hLow, hHigh, Bool.and_eq_true, Bool.or_eq_true, beq_iff_eq,
      decide_eq_true_eq, compare_gt_iff_gt, compare_lt_iff_lt, compare_eq_iff_eq]
    exact ⟨hAbove.imp id fun h => ⟨h.1, h.2.symm⟩, hBelow⟩

theorem lowEnd_pos {x : Binary} (hPositive : 0 < x.significand) : 0 < x.lowEnd := by
  have hSteps : 0 < x.lowSteps := by
    unfold lowSteps
    split <;> omega
  have hCast : (0 : ℚ) < x.lowSteps := by exact_mod_cast hSteps
  unfold lowEnd
  positivity

theorem Covers.pos {x : Binary} {r : ℚ} (hPositive : 0 < x.significand) (hCovers : x.Covers r) :
    0 < r := by
  have hLow := lowEnd_pos hPositive
  rcases hCovers.low with hLess | ⟨-, hEnd⟩
  · exact hLow.trans hLess
  · rwa [← hEnd]

/-! ### Different numbers -/

/-- The sizes of binary64 numbers: 53 bits, all of them used above the least power. -/
structure IsBinary64 (x : Binary) : Prop where
  significand_lt : x.significand < 2 ^ 53
  power_ge : -1074 ≤ x.power
  normal : 2 ^ 52 ≤ x.significand ∨ x.power = -1074
  narrow_iff : x.narrowBelow = true ↔ x.significand = 2 ^ 52 ∧ -1074 < x.power

theorem IsBinary64.eq_of_fields {x y : Binary} (hx : x.IsBinary64) (hy : y.IsBinary64)
    (hPower : x.power = y.power) (hSignificand : x.significand = y.significand) : x = y := by
  have hNarrow : x.narrowBelow = y.narrowBelow := by
    rw [Bool.eq_iff_iff, hx.narrow_iff, hy.narrow_iff, hPower, hSignificand]
  cases x
  cases y
  simp_all

def Before (x y : Binary) : Prop :=
  x.power < y.power ∨ x.power = y.power ∧ x.significand < y.significand

theorem steps_le_of_before {x y : Binary} (hx : x.IsBinary64) (hy : y.IsBinary64)
    (hBefore : x.Before y) {k : Nat} (hPower : y.power = x.power + k) :
    4 * x.significand + 2 < y.lowSteps * 2 ^ k ∨
      4 * x.significand + 2 = y.lowSteps * 2 ^ k ∧
        (x.significand % 2 = 1 ∨ y.significand % 2 = 1) := by
  have hxBound := hx.significand_lt
  have hxPower := hx.power_ge
  have hNarrow := hy.narrow_iff
  unfold lowSteps
  cases k with
  | zero =>
      have hLess : x.significand < y.significand := by
        rcases hBefore with hLower | ⟨-, hLess⟩
        · omega
        · exact hLess
      rw [pow_zero, mul_one]
      split <;> omega
  | succ k =>
      have hNormal : 2 ^ 52 ≤ y.significand := by
        rcases hy.normal with hLarge | hLeast
        · exact hLarge
        · omega
      have hAbove : -1074 < y.power := by omega
      have hDouble : 2 ≤ 2 ^ (k + 1) := by
        rw [pow_succ]
        have hOne : 1 ≤ 2 ^ k := Nat.one_le_two_pow
        omega
      split
      · rename_i hTrue
        have hLeast := (hNarrow.mp hTrue).1
        have hSteps := Nat.mul_le_mul_left (4 * y.significand - 1) hDouble
        omega
      · rename_i hFalse
        have hNotLeast : y.significand ≠ 2 ^ 52 := by
          intro hLeast
          exact hFalse (hNarrow.mpr ⟨hLeast, hAbove⟩)
        have hSteps := Nat.mul_le_mul_left (4 * y.significand - 2) hDouble
        omega

/-- The interval of a smaller number ends where that of a larger one begins, or before;
where they meet one of the two significands is odd. -/
theorem highEnd_le_lowEnd {x y : Binary} (hx : x.IsBinary64) (hy : y.IsBinary64)
    (hBefore : x.Before y) :
    x.highEnd < y.lowEnd ∨
      x.highEnd = y.lowEnd ∧ (x.significand % 2 = 1 ∨ y.significand % 2 = 1) := by
  obtain ⟨k, hPower⟩ : ∃ k : Nat, y.power = x.power + k := by
    refine ⟨(y.power - x.power).toNat, ?_⟩
    rcases hBefore with hLower | ⟨hSame, -⟩ <;> omega
  have hUnit : (0 : ℚ) < 2 ^ (x.power - 2) := by positivity
  have hLow : y.lowEnd = ((y.lowSteps * 2 ^ k : Nat) : ℚ) * 2 ^ (x.power - 2) := by
    have hShift : y.power - 2 = k + (x.power - 2) := by omega
    rw [lowEnd, hShift, zpow_add₀ (by norm_num), zpow_natCast]
    push_cast
    ring
  rw [hLow, highEnd]
  rcases steps_le_of_before hx hy hBefore hPower with hLess | ⟨hSame, hOdd⟩
  · left
    apply mul_lt_mul_of_pos_right _ hUnit
    exact_mod_cast hLess
  · right
    exact ⟨by rw [hSame], hOdd⟩

theorem not_covers_of_before {x y : Binary} {r : ℚ} (hx : x.IsBinary64) (hy : y.IsBinary64)
    (hBefore : x.Before y) (hCovers : x.Covers r) : ¬ y.Covers r := by
  intro hOther
  have hBelow : r ≤ x.highEnd := hCovers.high.elim le_of_lt fun h => h.2.le
  have hAbove : y.lowEnd ≤ r := hOther.low.elim le_of_lt fun h => h.2.le
  rcases highEnd_le_lowEnd hx hy hBefore with hApart | ⟨hMeet, hOdd⟩
  · exact absurd (hAbove.trans hBelow) (not_le.mpr hApart)
  · have hEnd : r = x.highEnd := le_antisymm hBelow (hMeet ▸ hAbove)
    have hEven : x.significand % 2 = 0 := by
      rcases hCovers.high with hLess | ⟨hEven, -⟩
      · exact absurd hEnd hLess.ne
      · exact hEven
    have hOtherEven : y.significand % 2 = 0 := by
      rcases hOther.low with hLess | ⟨hEven, -⟩
      · exact absurd (hMeet.symm.trans hEnd.symm) hLess.ne
      · exact hEven
    omega

theorem eq_of_covers {x y : Binary} {r : ℚ} (hx : x.IsBinary64) (hy : y.IsBinary64)
    (hCovers : x.Covers r) (hOther : y.Covers r) : x = y := by
  have hPower : x.power = y.power := by
    rcases lt_trichotomy x.power y.power with hLess | hSame | hMore
    · exact absurd hOther (not_covers_of_before hx hy (.inl hLess) hCovers)
    · exact hSame
    · exact absurd hCovers (not_covers_of_before hy hx (.inl hMore) hOther)
  have hSignificand : x.significand = y.significand := by
    rcases lt_trichotomy x.significand y.significand with hLess | hSame | hMore
    · exact absurd hOther (not_covers_of_before hx hy (.inr ⟨hPower, hLess⟩) hCovers)
    · exact hSame
    · exact absurd hCovers (not_covers_of_before hy hx (.inr ⟨hPower.symm, hMore⟩) hOther)
  exact hx.eq_of_fields hy hPower hSignificand

/-! ### The search for digits -/

theorem covers_hitAt? {x : Binary} {tie : Tie} {power : Int} {hit : Scaled}
    (hHit : x.hitAt? tie power = some hit) : x.Covers hit.value := by
  rw [← standsFor_iff]
  unfold hitAt? at hHit
  simp only at hHit
  split at hHit
  · rename_i hFloor hNext
    cases hHit
    have hNearer : x.nearer tie (x.floorAt power) power = x.floorAt power ∨
        x.nearer tie (x.floorAt power) power = x.floorAt power + 1 := by
      unfold nearer
      split
      · exact .inl rfl
      · exact .inr rfl
      · cases tie with
        | up => exact .inr rfl
        | even =>
            simp only
            split
            · exact .inl rfl
            · exact .inr rfl
    rcases hNearer with hSame | hSame
    · rw [hSame]; exact hFloor
    · rw [hSame]; exact hNext
  · rename_i hFloor _
    cases hHit
    exact hFloor
  · rename_i _ hNext
    cases hHit
    exact hNext
  · cases hHit

theorem value_exact (x : Binary) : x.exact.value = x.value := by
  have hTwo : (2 : ℚ) ^ x.power * 2 ^ (-x.power).toNat = 2 ^ x.power.toNat :=
    zpow_mul_toNat (by norm_num) x.power
  have hMin : min x.power 0 = -((-x.power).toNat : Int) := by omega
  have hSplit : (10 : ℚ) ^ (-x.power).toNat = 2 ^ (-x.power).toNat * 5 ^ (-x.power).toNat := by
    rw [← mul_pow]
    norm_num
  have hPositive : (10 : ℚ) ^ (-x.power).toNat ≠ 0 := by positivity
  rw [Scaled.value, exact, value]
  simp only [raised_cast]
  push_cast
  rw [hMin, zpow_neg, zpow_natCast, ← div_eq_mul_inv, div_eq_iff hPositive, hSplit, ← hTwo]
  ring

theorem covers_value {x : Binary} (hPositive : 0 < x.significand) : x.Covers x.value := by
  have hUnit : (0 : ℚ) < 2 ^ (x.power - 2) := by positivity
  have hValue : x.value = ((4 * x.significand : Nat) : ℚ) * 2 ^ (x.power - 2) := by
    have hShift : x.power = 2 + (x.power - 2) := by omega
    rw [value]
    nth_rewrite 1 [hShift]
    rw [zpow_add₀ (by norm_num)]
    push_cast
    ring
  have hSteps : x.lowSteps < 4 * x.significand := by
    unfold lowSteps
    split <;> omega
  constructor
  · left
    rw [hValue, lowEnd]
    apply mul_lt_mul_of_pos_right _ hUnit
    exact_mod_cast hSteps
  · left
    rw [hValue, highEnd]
    apply mul_lt_mul_of_pos_right _ hUnit
    push_cast
    linarith

theorem covers_search {x : Binary} (hPositive : 0 < x.significand) (tie : Tie) (grids : Nat)
    (power : Int) : x.Covers (x.search tie grids power).value := by
  induction grids generalizing power with
  | zero =>
      rw [search, value_exact]
      exact covers_value hPositive
  | succ grids ih =>
      rw [search]
      cases hHit : x.hitAt? tie power with
      | none => exact ih (power - 1)
      | some hit => exact covers_hitAt? hHit

end Binary
end Decimal
end RecordFilter

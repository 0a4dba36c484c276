/-
The size of floating numbers.

Rounding a number to 53 bits moves it by at most one binary place: a number of size
`2 ^ k` or more keeps that size, and one below `2 ^ k` stays below `2 ^ (k + 1)`.  So the
floating numbers next to whole numbers that are far apart are far apart as well, they are
ordered like the whole numbers, and so is the size of their difference.
-/
import Mathlib
import RecordFilter.Decimal.Literal

namespace RecordFilter
namespace Decimal

open Float.Model (Format totalExponent UnpackedFloat)
open Float.Model.UnpackedFloat

def unpacked (x : Float) : UnpackedFloat := x.toModel.unpack

def repacked (u : UnpackedFloat) : UnpackedFloat :=
  unpack Format.binary64 (pack Format.binary64 u)

/-! ### Normal numbers -/

/-- A significand of 53 bits, and an exponent that is not below the least. -/
structure IsNormal (significand : Nat) (exponent : Int) : Prop where
  low : 2 ^ 52 ≤ significand
  high : significand < 2 ^ 53
  exponent_ge : -1074 ≤ exponent

variable {significand : Nat} {exponent : Int}

theorem log2_eq {n k : Nat} (hLow : 2 ^ k ≤ n) (hHigh : n < 2 ^ (k + 1)) : n.log2 = k := by
  have hPositive : 0 < 2 ^ k := Nat.two_pow_pos k
  exact (Nat.log2_eq_iff (by omega)).mpr ⟨hLow, hHigh⟩

theorem log2_mul_two_pow {n : Nat} (hPositive : 0 < n) (k : Nat) :
    (n * 2 ^ k).log2 = n.log2 + k := by
  have hLow := Nat.mul_le_mul_right (2 ^ k) (Nat.log2_self_le (Nat.ne_of_gt hPositive))
  have hHigh := Nat.mul_lt_mul_of_pos_right (Nat.lt_log2_self (n := n)) (Nat.two_pow_pos k)
  rw [← Nat.pow_add] at hLow hHigh
  apply log2_eq hLow
  rwa [show n.log2 + k + 1 = n.log2 + 1 + k by omega]

theorem targetExponent_eq (total : Int) :
    Format.binary64.targetExponent total = max (total - 53) (-1074) := rfl

/-! ### Rounding -/

theorem shifted_significand (k : Nat) (extended : ExtendedMantissa) :
    (extended >>> k).mantissa = extended.mantissa / 2 ^ k := by
  induction k with
  | zero => exact (Nat.div_one _).symm
  | succ k ih =>
      change (extended >>> k).mantissa / 2 = _
      rw [ih, Nat.div_div_eq_div_mul, Nat.pow_succ]

theorem roundedMantissa_bounds (extended : ExtendedMantissa) :
    extended.mantissa ≤ extended.roundedMantissa ∧
      extended.roundedMantissa ≤ extended.mantissa + 1 := by
  obtain ⟨significand, half, rest⟩ := extended
  cases half <;> cases rest <;>
    simp only [ExtendedMantissa.roundedMantissa, ExtendedMantissa.accuracy,
      Accuracy.roundToNearestEven] <;> omega

theorem cut_bounds (hLong : 2 ^ 52 ≤ significand) :
    2 ^ 52 ≤ significand / 2 ^ (significand.log2 - 52) ∧
      significand / 2 ^ (significand.log2 - 52) < 2 ^ 53 := by
  have hPositive : significand ≠ 0 := by omega
  have hLength : 52 ≤ significand.log2 := (Nat.le_log2 hPositive).mpr hLong
  have hLow := Nat.log2_self_le hPositive
  have hHigh := Nat.lt_log2_self (n := significand)
  rw [Nat.le_div_iff_mul_le (Nat.two_pow_pos _), Nat.div_lt_iff_lt_mul (Nat.two_pow_pos _),
    ← Nat.pow_add, ← Nat.pow_add]
  rw [show 52 + (significand.log2 - 52) = significand.log2 by omega,
    show 53 + (significand.log2 - 52) = significand.log2 + 1 by omega]
  exact ⟨hLow, hHigh⟩

theorem shift_bounds (hLong : 2 ^ 52 ≤ significand)
    (hPlace : -1022 ≤ significand.log2 + exponent) :
    let shift := shiftToTargetExponent Format.binary64 significand exponent .exact
    2 ^ 52 ≤ shift.1.roundedMantissa ∧ shift.1.roundedMantissa ≤ 2 ^ 53 ∧
      shift.2 = significand.log2 + exponent - 52 := by
  intro shift
  have hLength : 52 ≤ significand.log2 := (Nat.le_log2 (by omega)).mpr hLong
  have hShift : (Format.binary64.targetExponent (totalExponent significand exponent) -
      exponent).toNat = significand.log2 - 52 := by
    rw [targetExponent_eq, totalExponent]
    omega
  have hCut : shift.1.mantissa = significand / 2 ^ (significand.log2 - 52) := by
    rw [← hShift]
    exact shifted_significand _ _
  have hExponent : shift.2 = exponent + ((significand.log2 - 52 : Nat) : Int) := by
    change exponent + ((Format.binary64.targetExponent _ - exponent).toNat : Int) = _
    rw [hShift]
  obtain ⟨hCutLow, hCutHigh⟩ := cut_bounds hLong
  obtain ⟨hRoundLow, hRoundHigh⟩ := roundedMantissa_bounds shift.1
  omega

theorem isNormal_shift (hLow : 2 ^ 52 ≤ significand) (hHigh : significand ≤ 2 ^ 53)
    (hExponent : -1074 ≤ exponent) :
    let shift := shiftToTargetExponent Format.binary64 significand exponent .exact
    IsNormal shift.1.mantissa shift.2 ∧ exponent ≤ shift.2 ∧ shift.2 ≤ exponent + 1 := by
  intro shift
  have hSignificand : shift.1.mantissa = significand / 2 ^ (Format.binary64.targetExponent
      (totalExponent significand exponent) - exponent).toNat := shifted_significand _ _
  have hNext : shift.2 = exponent + ((Format.binary64.targetExponent
      (totalExponent significand exponent) - exponent).toNat : Int) := rfl
  rw [targetExponent_eq, totalExponent] at hSignificand hNext
  by_cases hCarry : significand = 2 ^ 53
  · have hLog : significand.log2 = 53 := log2_eq (Nat.le_of_eq hCarry.symm) (by omega)
    have hOne : (max ((significand.log2 : Int) + 1 + exponent - 53) (-1074) -
        exponent).toNat = 1 := by omega
    rw [hOne] at hSignificand hNext
    exact ⟨⟨by omega, by omega, by omega⟩, by omega, by omega⟩
  · have hLog : significand.log2 = 52 := log2_eq hLow (by omega)
    have hZero : (max ((significand.log2 : Int) + 1 + exponent - 53) (-1074) -
        exponent).toNat = 0 := by omega
    rw [hZero, Nat.pow_zero, Nat.div_one] at hSignificand
    rw [hZero] at hNext
    exact ⟨⟨by omega, by omega, by omega⟩, by omega, by omega⟩

theorem exists_normal_of_long (sign : Sign) (hLong : 2 ^ 52 ≤ significand)
    (hPlace : -1022 ≤ significand.log2 + exponent) :
    ∃ significand' exponent', ∃ hPositive : 0 < significand',
      roundWithAccuracy Format.binary64 sign significand exponent .exact =
        .finite sign significand' exponent' hPositive ∧
      IsNormal significand' exponent' ∧
      significand.log2 + exponent ≤ exponent' + 52 ∧
      exponent' + 52 ≤ significand.log2 + exponent + 1 := by
  obtain ⟨hLow, hHigh, hExponent⟩ := shift_bounds hLong hPlace
  have hLeast : -1074 ≤ (shiftToTargetExponent Format.binary64 significand exponent .exact).2 := by
    omega
  obtain ⟨hNormal, hSame, hNext⟩ := isNormal_shift hLow hHigh hLeast
  have hPositive := Nat.lt_of_lt_of_le (Nat.two_pow_pos 52) hNormal.low
  refine ⟨_, _, hPositive, ?_, hNormal, by omega, by omega⟩
  exact dif_neg (Nat.ne_of_gt hPositive)

theorem exists_normal_of_round (sign : Sign) (hPositive : 0 < significand)
    (hPlace : -1022 ≤ significand.log2 + exponent) :
    ∃ significand' exponent', ∃ hPositive : 0 < significand',
      UnpackedFloat.round Format.binary64 sign significand exponent =
        .finite sign significand' exponent' hPositive ∧
      IsNormal significand' exponent' ∧
      significand.log2 + exponent ≤ exponent' + 52 ∧
      exponent' + 52 ≤ significand.log2 + exponent + 1 := by
  have hShift : (exponent - Format.binary64.targetExponent
      (totalExponent significand exponent)).toNat = 52 - significand.log2 := by
    rw [targetExponent_eq, totalExponent]
    omega
  have hLog := log2_mul_two_pow hPositive (52 - significand.log2)
  have hLong : 2 ^ 52 ≤ significand * 2 ^ (52 - significand.log2) := by
    apply (Nat.le_log2 _).mp
    · omega
    · exact Nat.ne_of_gt (Nat.mul_pos hPositive (Nat.two_pow_pos _))
  have hSame : ((significand * 2 ^ (52 - significand.log2)).log2 : Int) +
      (exponent - ((52 - significand.log2 : Nat) : Int)) = significand.log2 + exponent := by
    omega
  have hRound := exists_normal_of_long sign hLong (hPlace.trans_eq hSame.symm)
  rw [hSame] at hRound
  simp only [UnpackedFloat.round, decreaseExponent, hShift, Nat.shiftLeft_eq]
  exact hRound

/-! ### Numbers in 64 bits -/

theorem log2_of_isNormal (hNormal : IsNormal significand exponent) : significand.log2 = 52 :=
  log2_eq hNormal.low hNormal.high

theorem repacked_finite (sign : Sign) (hPositive : 0 < significand)
    (hNormal : IsNormal significand exponent) (hFits : exponent ≤ 971) :
    repacked (.finite sign significand exponent hPositive) =
      .finite sign significand exponent hPositive := by
  obtain ⟨hLow, hHigh, hLeast⟩ := hNormal
  have hField : (exponent + 1023 + 52).toNat < 2047 ∧ 0 < (exponent + 1023 + 52).toNat := by
    omega
  have hPack : pack Format.binary64 (.finite sign significand exponent hPositive) =
      packComponents Format.binary64 sign (BitVec.ofNat 11 (exponent + 1023 + 52).toNat)
        (BitVec.ofNat 52 significand) := by
    have hNotInfinite : ¬ 2 ^ 11 ≤ (exponent + 1023 + 52).toNat + 1 := by omega
    have hLog : significand.log2 + 1 = 53 := by rw [log2_eq hLow hHigh]
    unfold pack
    exact (if_neg hNotInfinite).trans (if_pos hLog)
  have hNat : (BitVec.ofNat 11 (exponent + 1023 + 52).toNat).toNat =
      (exponent + 1023 + 52).toNat := by
    rw [BitVec.toNat_ofNat]
    omega
  have hNotOnes : BitVec.ofNat 11 (exponent + 1023 + 52).toNat ≠ -1#11 := by
    intro hOnes
    have hValue := congrArg BitVec.toNat hOnes
    rw [hNat] at hValue
    exact absurd hValue (Nat.ne_of_lt hField.1)
  have hNotZero : BitVec.ofNat 11 (exponent + 1023 + 52).toNat ≠ 0#11 := by
    intro hZero
    have hValue := congrArg BitVec.toNat hZero
    rw [hNat] at hValue
    exact absurd hValue (Nat.ne_of_gt hField.2)
  have hSignificand : (1#1 ++ BitVec.ofNat 52 significand).toNat = significand := by
    rw [BitVec.toNat_append, BitVec.toNat_ofNat, BitVec.toNat_ofNat, Nat.shiftLeft_eq,
      Nat.mul_comm, ← Nat.two_pow_add_eq_or_of_lt (Nat.mod_lt _ (Nat.two_pow_pos 52))]
    change 2 ^ 52 * 1 + significand % 2 ^ 52 = significand
    omega
  have hExponent : ((exponent + 1023 + 52).toNat : Int) - (1023 + 52) = exponent := by omega
  rw [repacked, hPack]
  unfold unpack
  simp only [unpackExponent_packComponents, unpackMantissa_packComponents,
    unpackSign_packComponents, if_neg hNotOnes, if_neg hNotZero, Sign.ofBitVec_toBitVec, hNat,
    hSignificand]
  congr 1

theorem repacked_infinity (sign : Sign) : repacked (.infinity sign) = .infinity sign := by
  cases sign <;> rfl

theorem repacked_zero (sign : Sign) : repacked (.zero sign) = .zero sign :=
  unpack_packedZero

theorem repacked_overflow (sign : Sign) (hPositive : 0 < significand) (hLarge : 971 < exponent) :
    repacked (.finite sign significand exponent hPositive) = .infinity sign := by
  have hInfinite : 2 ^ 11 ≤ (exponent + 1023 + 52).toNat + 1 := by omega
  have hPack : pack Format.binary64 (.finite sign significand exponent hPositive) =
      packedInfinity Format.binary64 sign := by
    unfold pack
    exact if_pos hInfinite
  rw [repacked, hPack]
  exact repacked_infinity sign

/-! ### Sizes -/

/-- Zero, or a normal number below `2 ^ bound` in size. -/
inductive Below (bound : Int) : UnpackedFloat → Prop where
  | zero (sign : Sign) : Below bound (.zero sign)
  | finite {sign : Sign} {significand : Nat} {exponent : Int} (hPositive : 0 < significand)
      (hNormal : IsNormal significand exponent) (hBound : exponent + 53 ≤ bound) :
      Below bound (.finite sign significand exponent hPositive)

/-- An infinity, or a normal number of size `2 ^ bound` or more. -/
inductive Above (sign : Sign) (bound : Int) : UnpackedFloat → Prop where
  | infinity : Above sign bound (.infinity sign)
  | finite {significand : Nat} {exponent : Int} (hPositive : 0 < significand)
      (hNormal : IsNormal significand exponent) (hBound : bound ≤ exponent + 52) :
      Above sign bound (.finite sign significand exponent hPositive)

variable {bound low high : Int} {sign : Sign} {u v : UnpackedFloat}

theorem Below.repacked_eq (hBelow : Below bound u) (hBound : bound ≤ 1024) :
    repacked u = u := by
  cases hBelow with
  | zero sign => exact repacked_zero sign
  | finite hPositive hNormal hSize => exact repacked_finite _ hPositive hNormal (by omega)

theorem Above.repacked (hAbove : Above sign bound u) : Above sign bound (repacked u) := by
  cases hAbove with
  | infinity =>
      rw [repacked_infinity]
      exact .infinity
  | @finite significand exponent hPositive hNormal hSize =>
      by_cases hFits : exponent ≤ 971
      · rw [repacked_finite sign hPositive hNormal hFits]
        exact .finite hPositive hNormal hSize
      · rw [repacked_overflow sign hPositive (by omega)]
        exact .infinity

theorem Below.neg (hBelow : Below bound u) : Below bound u.neg := by
  cases hBelow with
  | zero sign => exact .zero (-sign)
  | finite hPositive hNormal hSize => exact .finite hPositive hNormal hSize

theorem Above.neg (hAbove : Above sign bound u) : Above (-sign) bound u.neg := by
  cases hAbove with
  | infinity => exact .infinity
  | finite hPositive hNormal hSize => exact .finite hPositive hNormal hSize

theorem Above.abs (hAbove : Above sign bound u) : Above .positive bound u.abs := by
  cases hAbove with
  | infinity => exact .infinity
  | finite hPositive hNormal hSize => exact .finite hPositive hNormal hSize

/-! ### Order -/

theorem compare_swap (u v : UnpackedFloat) :
    (u.compare v).map Ordering.swap = v.compare u := by
  cases u with
  | notANumber => cases v <;> rfl
  | infinity sign =>
      cases v with
      | infinity other => cases sign <;> cases other <;> rfl
      | notANumber | zero _ | finite _ _ _ _ => cases sign <;> rfl
  | zero sign =>
      cases v with
      | finite other _ _ _ => cases other <;> rfl
      | infinity other => cases other <;> rfl
      | notANumber | zero _ => rfl
  | finite sign significand exponent _ =>
      cases v with
      | infinity other => cases sign <;> cases other <;> rfl
      | notANumber => cases sign <;> rfl
      | zero _ => cases sign <;> rfl
      | finite other significand' exponent' _ =>
          have hExponents := Int.compare_swap exponent exponent'
          have hSignificands := Nat.compare_swap significand significand'
          cases sign <;> cases other <;>
            simp [UnpackedFloat.compare, Ordering.swap_then, hExponents, hSignificands]

theorem compare_eq_none_iff {u v : UnpackedFloat} :
    u.compare v = none ↔ u = .notANumber ∨ v = .notANumber := by
  cases u with
  | notANumber => cases v <;> simp [UnpackedFloat.compare]
  | infinity sign => cases v <;> cases sign <;> simp [UnpackedFloat.compare]
  | zero sign =>
      cases v with
      | infinity other => cases other <;> simp [UnpackedFloat.compare]
      | finite other _ _ _ => cases other <;> simp [UnpackedFloat.compare]
      | notANumber | zero _ => simp [UnpackedFloat.compare]
  | finite sign _ _ _ =>
      cases v with
      | infinity other => cases sign <;> cases other <;> simp [UnpackedFloat.compare]
      | finite other _ _ _ => cases sign <;> cases other <;> simp [UnpackedFloat.compare]
      | notANumber | zero _ => cases sign <;> simp [UnpackedFloat.compare]

def outward : Sign → Ordering
  | .positive => .lt
  | .negative => .gt

theorem compare_below_above (hBelow : Below low u) (hAbove : Above sign high v)
    (hBounds : low ≤ high) : u.compare v = some (outward sign) := by
  cases hBelow with
  | zero _ => cases hAbove <;> cases sign <;> rfl
  | @finite other significand exponent hPositive hNormal hSize =>
      cases hAbove with
      | infinity => cases other <;> cases sign <;> rfl
      | @finite significand' exponent' hPositive' hNormal' hSize' =>
          have hLess : compare exponent exponent' = .lt :=
            Int.compare_eq_lt.mpr (by omega)
          cases other <;> cases sign <;> simp [UnpackedFloat.compare, outward, hLess]

/-! ### Differences -/

theorem normalize_apply (sign zeroSign : Sign) (hPositive : 0 < significand) :
    UnpackedFloat.normalize Format.binary64 (sign.apply significand) exponent zeroSign =
      UnpackedFloat.round Format.binary64 sign significand exponent := by
  have hOrder : compare (significand : Int) 0 = .gt := Int.compare_eq_gt.mpr (by omega)
  have hOrderNeg : compare (-(significand : Int)) 0 = .lt := Int.compare_eq_lt.mpr (by omega)
  cases sign with
  | positive => simp [UnpackedFloat.normalize, Sign.apply, hOrder]
  | negative => simp [UnpackedFloat.normalize, Sign.apply, hOrderNeg]

/-- A large whole number less a small one is large, with the sign of the large one turned
around where that is taken away. -/
theorem exists_apply_eq_sub (sign other : Sign) {small large : Nat} (hLess : small < large) :
    ∃ size : Nat, large - small ≤ size ∧
      sign.apply small - other.apply large = (-other).apply size := by
  cases sign with
  | positive =>
      cases other with
      | positive =>
          refine ⟨large - small, Nat.le_refl _, ?_⟩
          change (small : Int) - large = -((large - small : Nat) : Int)
          omega
      | negative =>
          refine ⟨large + small, by omega, ?_⟩
          change (small : Int) - -large = ((large + small : Nat) : Int)
          omega
  | negative =>
      cases other with
      | positive =>
          refine ⟨large + small, by omega, ?_⟩
          change -(small : Int) - large = -((large + small : Nat) : Int)
          omega
      | negative =>
          refine ⟨large - small, Nat.le_refl _, ?_⟩
          change -(small : Int) - -large = ((large - small : Nat) : Int)
          omega

/-- The exact difference of numbers whose exponents are far apart has almost the size of the
larger one. -/
theorem exists_difference (sign other : Sign) {significand' : Nat} {exponent' : Int}
    (hNormal : IsNormal significand exponent) (hNormal' : IsNormal significand' exponent')
    (hApart : exponent + 3 ≤ exponent') :
    ∃ size : Nat, 0 < size ∧ exponent' + 51 ≤ size.log2 + exponent ∧
      sign.apply significand -
          other.apply ((significand' * 2 ^ (exponent' - exponent).toNat : Nat) : Int) =
        (-other).apply size := by
  obtain ⟨shift, hShift⟩ : ∃ shift : Nat, (exponent' - exponent).toNat = shift + 3 :=
    ⟨(exponent' - exponent).toNat - 3, by omega⟩
  have hHigh := hNormal.high
  have hLarge : 2 ^ (shift + 55) ≤ significand' * 2 ^ (shift + 3) := by
    have hProduct := Nat.mul_le_mul_right (2 ^ (shift + 3)) hNormal'.low
    rw [← Nat.pow_add] at hProduct
    rwa [show 52 + (shift + 3) = shift + 55 by omega] at hProduct
  have hSmall : 2 ^ 53 ≤ 2 ^ (shift + 54) := Nat.pow_le_pow_right (by decide) (by omega)
  have hDouble : 2 ^ (shift + 55) = 2 ^ (shift + 54) * 2 := Nat.pow_succ 2 _
  obtain ⟨size, hSize, hApply⟩ := exists_apply_eq_sub sign other
    (show significand < significand' * 2 ^ (shift + 3) by omega)
  have hLong : 2 ^ (shift + 54) ≤ size := by omega
  have hLog : shift + 54 ≤ size.log2 := (Nat.le_log2 (by omega)).mpr hLong
  rw [hShift]
  exact ⟨size, by omega, by omega, hApply⟩

theorem sub_below_above (hBelow : Below low u) (hAbove : Above sign high v)
    (hBounds : low + 2 ≤ high) : Above (-sign) (high - 1) (sub Format.binary64 u v) := by
  cases hBelow with
  | zero _ =>
      cases hAbove with
      | infinity => exact .infinity
      | finite hPositive hNormal hSize => exact .finite hPositive hNormal (by omega)
  | @finite other significand exponent hPositive hNormal hSize =>
      cases hAbove with
      | infinity => exact .infinity
      | @finite significand' exponent' hPositive' hNormal' hSize' =>
          obtain ⟨size, hSizePositive, hSizeLog, hApply⟩ :=
            exists_difference other sign hNormal hNormal' (by omega)
          have hLeast := hNormal'.exponent_ge
          obtain ⟨rounded, place, hRounded, hRound, hRoundNormal, hPlace, -⟩ :=
            exists_normal_of_round (-sign) hSizePositive
              (show -1022 ≤ size.log2 + exponent by have := hNormal.exponent_ge; omega)
          have hSub : sub Format.binary64 (.finite other significand exponent hPositive)
              (.finite sign significand' exponent' hPositive') =
                .finite (-sign) rounded place hRounded := by
            have hSmaller : min exponent exponent' = exponent := by omega
            rw [← hRound, ← normalize_apply (-sign) .positive hSizePositive, ← hApply]
            simp only [sub, decreaseExponent, hSmaller, Int.sub_self, Int.toNat_zero,
              Nat.shiftLeft_eq, Nat.pow_zero, Nat.mul_one]
          rw [hSub]
          exact .finite hRounded hRoundNormal (by omega)

/-! ### Whole numbers -/

theorem unpacked_neg (x : Float) : unpacked (-x) = repacked (unpacked x).neg := rfl

theorem unpacked_abs (x : Float) : unpacked x.abs = repacked (unpacked x).abs := rfl

theorem unpacked_sub (x y : Float) :
    unpacked (x - y) = repacked (sub Format.binary64 (unpacked x) (unpacked y)) := rfl

theorem unpacked_mul (x y : Float) :
    unpacked (x * y) = repacked (mul Format.binary64 (unpacked x) (unpacked y)) := rfl

theorem below_of_long (sign : Sign) (hLong : 2 ^ 52 ≤ significand)
    (hPlace : -1022 ≤ significand.log2 + exponent)
    (hBound : significand.log2 + exponent + 2 ≤ bound) :
    Below bound (roundWithAccuracy Format.binary64 sign significand exponent .exact) := by
  obtain ⟨rounded, place, hPositive, hRound, hNormal, -, hHigh⟩ :=
    exists_normal_of_long sign hLong hPlace
  rw [hRound]
  exact .finite hPositive hNormal (by omega)

theorem above_of_long (sign : Sign) (hLong : 2 ^ 52 ≤ significand)
    (hPlace : -1022 ≤ significand.log2 + exponent)
    (hBound : bound ≤ significand.log2 + exponent) :
    Above sign bound (roundWithAccuracy Format.binary64 sign significand exponent .exact) := by
  obtain ⟨rounded, place, hPositive, hRound, hNormal, hLow, -⟩ :=
    exists_normal_of_long sign hLong hPlace
  rw [hRound]
  exact .finite hPositive hNormal (by omega)

theorem unpacked_ofNat_long {n : Nat} (hLong : 2 ^ 53 ≤ n) :
    unpacked (Float.ofNat n) =
      repacked (roundWithAccuracy Format.binary64 .positive (n * 2 ^ 53) (-53) .exact) := by
  have hPath : Float.ofNat n = Float.ofModel (Float.Model.ofScientific n 0) :=
    dif_neg (show ¬ (n < 2 ^ 53 ∧ 0 ≤ 22) by omega)
  have hNotZero : n ≠ 0 := by omega
  have hNotHuge : ¬ ((0 : Int) > 2 ^ Format.binary64.exponentBits) := by decide
  have hNotTiny : ¬ ((0 : Int) < -((2 ^ Format.binary64.exponentBits : Int) + n.log2)) := by
    have hPower : (0 : Int) ≤ 2 ^ Format.binary64.exponentBits := by decide
    omega
  rw [hPath]
  change repacked (UnpackedFloat.ofScientific Format.binary64 n 0) = _
  rw [UnpackedFloat.ofScientific, dif_neg hNotZero, if_neg hNotHuge, if_neg hNotTiny,
    if_pos (Int.le_refl 0), mul]
  simp only [Nat.shiftLeft_eq, Int.toNat_zero, Nat.pow_zero, Nat.mul_one, Int.add_zero]
  rfl

/-- A natural number of at most 53 bits is rounded, and its product with one is rounded
again. -/
theorem exists_unpacked_ofNat_short {n : Nat} (hPositive : 0 < n) (hShort : n < 2 ^ 53) :
    ∃ significand exponent, IsNormal significand exponent ∧
      exponent + 52 ≤ n.log2 + 1 ∧ (n.log2 : Int) ≤ exponent + 52 ∧
      unpacked (Float.ofNat n) = repacked (roundWithAccuracy Format.binary64 .positive
        (significand * 2 ^ 52) (exponent - 52) .exact) := by
  have hLog : n.log2 < 53 := (Nat.log2_lt (by omega)).mpr hShort
  obtain ⟨significand, exponent, hSome, hRound, hNormal, hLow, hHigh⟩ :=
    exists_normal_of_round .positive hPositive (show -1022 ≤ (n.log2 : Int) + 0 by omega)
  rw [Int.add_zero] at hLow hHigh
  have hOne : unpacked (Float.ofBits 0x3FF0000000000000) =
      .finite .positive (2 ^ 52) (-52) (by decide) := rfl
  have hProduct : Float.ofNat n = n.toUInt64.toFloat * Float.ofBits 0x3FF0000000000000 :=
    dif_pos (show n < 2 ^ 53 ∧ 0 ≤ 22 from ⟨hShort, by decide⟩)
  have hWord : n.toUInt64.toNat = n := by
    rw [Nat.toUInt64, UInt64.toNat_ofNat']
    omega
  have hFactor : unpacked n.toUInt64.toFloat = .finite .positive significand exponent hSome := by
    change repacked (UnpackedFloat.normalize Format.binary64 (Sign.positive.apply n.toUInt64.toNat)
      0 .positive) = _
    rw [hWord, normalize_apply .positive .positive hPositive, hRound]
    exact repacked_finite .positive hSome hNormal (by omega)
  refine ⟨significand, exponent, hNormal, hHigh, hLow, ?_⟩
  rw [hProduct, unpacked_mul, hOne, hFactor]
  rfl

/-- The floating number next to a natural number is not much larger. -/
theorem below_ofNat {n k : Nat} (hSize : n < 2 ^ k) (hBound : k ≤ 1000) :
    Below (k + 2) (unpacked (Float.ofNat n)) := by
  have hFits : (k : Int) + 2 ≤ 1024 := by omega
  rcases Nat.eq_zero_or_pos n with rfl | hPositive
  · exact .zero _
  · have hLog : n.log2 < k := (Nat.log2_lt (by omega)).mpr hSize
    by_cases hShort : n < 2 ^ 53
    · obtain ⟨significand, exponent, hNormal, hHigh, hLow, hUnpacked⟩ :=
        exists_unpacked_ofNat_short hPositive hShort
      have hLong : 2 ^ 52 ≤ significand * 2 ^ 52 :=
        Nat.le_trans hNormal.low (Nat.le_mul_of_pos_right _ (Nat.two_pow_pos 52))
      have hProductLog : (significand * 2 ^ 52).log2 = 104 := by
        rw [log2_mul_two_pow (Nat.lt_of_lt_of_le (Nat.two_pow_pos 52) hNormal.low),
          log2_of_isNormal hNormal]
      have hBelow : Below (k + 2) (roundWithAccuracy Format.binary64 .positive
          (significand * 2 ^ 52) (exponent - 52) .exact) :=
        below_of_long .positive hLong (by omega) (by omega)
      rwa [hUnpacked, hBelow.repacked_eq hFits]
    · have hLong : 2 ^ 52 ≤ n * 2 ^ 53 := by omega
      have hProductLog := log2_mul_two_pow hPositive 53
      have hBelow : Below (k + 2) (roundWithAccuracy Format.binary64 .positive (n * 2 ^ 53)
          (-53) .exact) :=
        below_of_long .positive hLong (by omega) (by omega)
      rwa [unpacked_ofNat_long (by omega), hBelow.repacked_eq hFits]

theorem above_ofNat {n k : Nat} (hSize : 2 ^ k ≤ n) (hBound : 53 ≤ k) :
    Above .positive k (unpacked (Float.ofNat n)) := by
  have hLarge : 2 ^ 53 ≤ n := Nat.le_trans (Nat.pow_le_pow_right (by decide) hBound) hSize
  have hLog : k ≤ n.log2 := (Nat.le_log2 (by omega)).mpr hSize
  have hProductLog := log2_mul_two_pow (show 0 < n by omega) 53
  rw [unpacked_ofNat_long hLarge]
  exact (above_of_long .positive (by omega) (by omega) (by omega)).repacked

theorem below_ofInt {n : Int} {k : Nat} (hSize : n.natAbs < 2 ^ k) (hBound : k ≤ 1000) :
    Below (k + 2) (unpacked (Float.ofInt n)) := by
  cases n with
  | ofNat n => exact below_ofNat hSize hBound
  | negSucc n =>
      have hBelow := (below_ofNat (n := n + 1) hSize hBound).neg
      have hFits : (k : Int) + 2 ≤ 1024 := by omega
      change Below _ (repacked (unpacked (Float.ofNat (n + 1))).neg)
      rwa [hBelow.repacked_eq hFits]

theorem above_nearest {n k : Nat} (hSize : 2 ^ k ≤ n) (hBound : 53 ≤ k) :
    Above .positive k (unpacked (nearest n 0)) := by
  have hNotZero : n ≠ 0 := by
    have hPower := Nat.two_pow_pos k
    omega
  have hNotSmall : ¬ ((Nat.toDigits 10 n).length + (0 : Int) < -330) := by omega
  unfold nearest
  simp only [hNotZero, hNotSmall, decide_false, Bool.or_self, Bool.false_eq_true, if_false]
  split
  · exact .infinity
  · exact above_ofNat hSize hBound

end Decimal
end RecordFilter

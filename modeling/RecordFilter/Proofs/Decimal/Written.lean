/-
The text of a floating number determines it.

The text of a finite number has an exact value as a decimal literal, whatever the
layout: that of its digits, which lie in the interval of the number.  Different
numbers have no decimal in common, so a layout writes them differently.
-/
import RecordFilter.Decimal.Layout
import RecordFilter.Proofs.Decimal.Interval

namespace RecordFilter
namespace Decimal

/-! ### The value of digits -/

def Digits.value (d : Digits) : ℚ :=
  digitsValue 0 d.digits * 10 ^ (d.leading - (d.digits.length - 1))

theorem digitsValue_append (high : Nat) (left right : List Char) :
    digitsValue high (left ++ right) = digitsValue (digitsValue high left) right :=
  List.foldl_append

theorem digitsValue_zeros (high n : Nat) :
    digitsValue high (List.replicate n '0') = high * 10 ^ n := by
  rw [digitsValue_eq_ofDigitChars, Nat.ofDigitChars_replicate_zero, Nat.mul_comm]

theorem dropTrailingZeros_eq (digits : List Char) (power : Int) :
    ∃ k : Nat, digits = List.replicate k '0' ++ (dropTrailingZeros digits power).1 ∧
      (dropTrailingZeros digits power).2 = power + k := by
  induction digits generalizing power with
  | nil => exact ⟨0, by simp [dropTrailingZeros]⟩
  | cons c cs ih =>
      unfold dropTrailingZeros
      by_cases hZero : c = '0'
      · obtain ⟨k, hDigits, hPower⟩ := ih (power + 1)
        rw [if_pos hZero]
        refine ⟨k + 1, ?_, ?_⟩
        · rw [List.replicate_succ, List.cons_append, ← hDigits, hZero]
        · rw [hPower]
          omega
      · rw [if_neg hZero]
        exact ⟨0, by simp⟩

theorem zpow_add_natCast (power : Int) (k : Nat) :
    (10 : ℚ) ^ (power + k) = 10 ^ power * 10 ^ k := by
  rw [zpow_add₀ (by norm_num), zpow_natCast]

theorem Digits.ofScaled_spec (d : Scaled) :
    IsNumeral (ofScaled d).digits ∧ (ofScaled d).value = d.value := by
  obtain ⟨k, hDigits, hPower⟩ :=
    dropTrailingZeros_eq (Nat.toDigits 10 d.coefficient).reverse d.power
  have hNumeral := isNumeral_toDigits d.coefficient
  have hRead := digitsValue_toDigits d.coefficient
  unfold ofScaled
  simp only
  cases hDropped : dropTrailingZeros (Nat.toDigits 10 d.coefficient).reverse d.power with
  | mk rest power =>
      rw [hDropped] at hDigits hPower
      simp only at hDigits hPower
      have hWritten : Nat.toDigits 10 d.coefficient =
          rest.reverse ++ List.replicate k '0' := by
        rw [← List.reverse_reverse (Nat.toDigits 10 d.coefficient), hDigits,
          List.reverse_append, List.reverse_replicate]
      rw [hWritten, digitsValue_append, digitsValue_zeros] at hRead
      cases rest with
      | nil =>
          have hZero : d.coefficient = 0 := by
            rw [← hRead]
            simp [digitsValue]
          refine ⟨⟨by simp, by simp⟩, ?_⟩
          simp [value, Scaled.value, hZero, digitsValue, digitValue]
      | cons c cs =>
          refine ⟨⟨by simp, ?_⟩, ?_⟩
          · intro digit hMember
            apply hNumeral.isDigit
            rw [hWritten]
            exact List.mem_append_left _ hMember
          · have hLeading : (cs.length : Int) + power - (((c :: cs).reverse.length : Nat) - 1) =
                d.power + k := by
              rw [List.length_reverse, List.length_cons, hPower]
              push_cast
              ring
            rw [value, Scaled.value, hLeading, zpow_add_natCast, ← hRead]
            push_cast
            ring

/-- The shortest digits of a number are a numeral that is read as the number; those of
zero are worth zero. -/
theorem Binary.shortest_spec (x : Binary) (tie : Tie) :
    IsNumeral (x.shortest tie).digits ∧
      if x.significand = 0 then (x.shortest tie).value = 0
      else x.Covers (x.shortest tie).value := by
  unfold shortest
  by_cases hZero : x.significand = 0
  · rw [if_pos hZero, if_pos hZero]
    refine ⟨⟨by simp, by simp⟩, ?_⟩
    simp [Digits.value, digitsValue, digitValue]
  · obtain ⟨hNumeral, hValue⟩ := Digits.ofScaled_spec (x.search tie 17 x.leadingPower)
    rw [if_neg hZero, if_neg hZero, hValue]
    exact ⟨hNumeral, covers_search (Nat.pos_of_ne_zero hZero) tie 17 _⟩

/-! ### The value of a literal -/

def spanFraction : List Char → List Char × List Char
  | '.' :: text => spanDigits text
  | text => ([], text)

def literalValue (text : List Char) : ℚ :=
  let whole := spanDigits text
  let fraction := spanFraction whole.2
  digitsValue 0 (whole.1 ++ fraction.1) *
    10 ^ ((readExponent? fraction.2).getD 0 - fraction.1.length)

theorem literalValue_point {whole fraction rest : List Char}
    (hWhole : ∀ c ∈ whole, c.isDigit = true) (hFraction : ∀ c ∈ fraction, c.isDigit = true)
    (hRest : ∀ c ∈ rest.head?, c.isDigit = false) :
    literalValue (whole ++ '.' :: (fraction ++ rest)) =
      digitsValue 0 (whole ++ fraction) * 10 ^ ((readExponent? rest).getD 0 - fraction.length) := by
  have hSpan : spanDigits (whole ++ '.' :: (fraction ++ rest)) =
      (whole, '.' :: (fraction ++ rest)) :=
    spanDigits_of_digits hWhole (by simp)
  simp only [literalValue, hSpan, spanFraction, spanDigits_of_digits hFraction hRest]

theorem literalValue_whole {whole rest : List Char} (hWhole : ∀ c ∈ whole, c.isDigit = true)
    (hRest : ∀ c ∈ rest.head?, c.isDigit = false ∧ c ≠ '.') :
    literalValue (whole ++ rest) = digitsValue 0 whole * 10 ^ ((readExponent? rest).getD 0) := by
  have hSpan := spanDigits_of_digits hWhole fun c hHead => (hRest c hHead).1
  have hFraction : spanFraction rest = ([], rest) := by
    cases rest with
    | nil => rfl
    | cons c cs =>
        have hPoint := (hRest c rfl).2
        simp [spanFraction, hPoint]
  simp [literalValue, hSpan, hFraction]

/-! ### The two notations -/

theorem isDigit_zeros (n : Nat) : ∀ c ∈ List.replicate n '0', c.isDigit = true := by
  intro c hMember
  rw [List.eq_of_mem_replicate hMember]
  decide

theorem readExponent?_nil : readExponent? [] = some 0 := rfl

namespace Digits

variable {d : Digits}

theorem literalValue_small (hDigits : IsNumeral d.digits) (hLeading : d.leading < 0) :
    literalValue (['0', '.'] ++ List.replicate ((-d.leading).toNat - 1) '0' ++ d.digits) =
      d.value := by
  have hZeros := isDigit_zeros ((-d.leading).toNat - 1)
  have hFraction : ∀ c ∈ List.replicate ((-d.leading).toNat - 1) '0' ++ d.digits,
      c.isDigit = true := by
    intro c hMember
    exact (List.mem_append.mp hMember).elim (hZeros c) (hDigits.isDigit c)
  have hText : ['0', '.'] ++ List.replicate ((-d.leading).toNat - 1) '0' ++ d.digits =
      ['0'] ++ '.' :: (List.replicate ((-d.leading).toNat - 1) '0' ++ d.digits ++ []) := by
    simp
  have hZero : digitsValue 0 ['0'] = 0 := by decide
  rw [hText, literalValue_point (by simp) hFraction (by simp), readExponent?_nil,
    digitsValue_append, digitsValue_append, hZero, digitsValue_zeros, Nat.zero_mul, value]
  congr 2
  simp only [List.length_append, List.length_replicate, Option.getD_some]
  omega

theorem literalValue_large (hDigits : IsNumeral d.digits) (hLeading : 0 ≤ d.leading)
    (hLength : d.digits.length ≤ d.leading.toNat + 1) (keepsPoint : Bool) :
    literalValue (d.digits ++ List.replicate (d.leading.toNat + 1 - d.digits.length) '0' ++
      if keepsPoint then ['.', '0'] else []) = d.value := by
  have hZeros := isDigit_zeros (d.leading.toNat + 1 - d.digits.length)
  have hWhole : ∀ c ∈ d.digits ++ List.replicate (d.leading.toNat + 1 - d.digits.length) '0',
      c.isDigit = true := by
    intro c hMember
    exact (List.mem_append.mp hMember).elim (hDigits.isDigit c) (hZeros c)
  have hPower : d.leading - (d.digits.length - 1) =
      ((d.leading.toNat + 1 - d.digits.length : Nat) : Int) := by omega
  cases keepsPoint with
  | true =>
      have hText : ∀ text : List Char, (text ++ if true then ['.', '0'] else []) =
          text ++ '.' :: (['0'] ++ []) := fun _ => rfl
      have hZero : ∀ high, digitsValue high ['0'] = 10 * high := fun _ => rfl
      have hTenth : (10 : ℚ) ^ ((some 0 : Option Int).getD 0 - (['0'].length : Int)) = 1 / 10 := by
        norm_num
      rw [hText, literalValue_point hWhole (by simp) (by simp), readExponent?_nil,
        digitsValue_append, digitsValue_append, digitsValue_zeros, hZero, value, hPower,
        zpow_natCast, hTenth]
      push_cast
      ring
  | false =>
      have hText : ∀ text : List Char, (text ++ if false then ['.', '0'] else []) =
          text ++ [] := fun _ => rfl
      rw [hText, literalValue_whole hWhole (by simp), readExponent?_nil, digitsValue_append,
        digitsValue_zeros, value, hPower, zpow_natCast]
      simp

theorem literalValue_inside (hDigits : IsNumeral d.digits) (hLeading : 0 ≤ d.leading)
    (hLength : d.leading.toNat + 1 < d.digits.length) :
    literalValue (d.digits.take (d.leading.toNat + 1) ++
      '.' :: d.digits.drop (d.leading.toNat + 1)) = d.value := by
  have hWhole : ∀ c ∈ d.digits.take (d.leading.toNat + 1), c.isDigit = true :=
    fun c hMember => hDigits.isDigit c (List.mem_of_mem_take hMember)
  have hFraction : ∀ c ∈ d.digits.drop (d.leading.toNat + 1), c.isDigit = true :=
    fun c hMember => hDigits.isDigit c (List.mem_of_mem_drop hMember)
  rw [← List.append_nil (d.digits.drop _), literalValue_point hWhole hFraction (by simp),
    readExponent?_nil, List.take_append_drop, List.length_drop, value]
  congr 2
  simp only [Option.getD_some]
  omega

theorem literalValue_positional (hDigits : IsNumeral d.digits) (keepsPoint : Bool) :
    literalValue (d.positional keepsPoint) = d.value := by
  unfold positional
  by_cases hSmall : d.leading < 0
  · rw [if_pos hSmall]
    exact literalValue_small hDigits hSmall
  · have hLeading : 0 ≤ d.leading := by omega
    rw [if_neg hSmall]
    by_cases hLength : d.digits.length ≤ d.leading.toNat + 1
    · simp only [if_pos hLength]
      exact literalValue_large hDigits hLeading hLength keepsPoint
    · simp only [if_neg hLength]
      exact literalValue_inside hDigits hLeading (by omega)

end Digits

theorem readExponent?_written (leading : Int) :
    readExponent? ('e' :: (if leading < 0 then '-' else '+') :: Nat.toDigits 10 leading.natAbs) =
      some leading := by
  have hNumeral := isNumeral_toDigits leading.natAbs
  have hAll : (Nat.toDigits 10 leading.natAbs).all Char.isDigit = true :=
    List.all_eq_true.mpr hNumeral.isDigit
  by_cases hNegative : leading < 0
  · simp only [readExponent?, hNegative, spanSign, hNumeral.isEmpty_eq, hAll,
      digitsValue_toDigits, if_true, decide_true, Bool.true_or, Bool.not_true, Bool.or_self,
      Bool.false_eq_true, if_false, Option.some.injEq]
    omega
  · simp only [readExponent?, hNegative, spanSign, hNumeral.isEmpty_eq, hAll,
      digitsValue_toDigits, if_true, decide_true, Bool.true_or, Bool.not_true, Bool.or_self,
      Bool.false_eq_true, if_false, Option.some.injEq]
    omega

theorem Digits.literalValue_scientific {d : Digits} (hDigits : IsNumeral d.digits) :
    literalValue d.scientific = d.value := by
  obtain ⟨digits, leading⟩ := d
  have hDigit := hDigits.isDigit
  have hExponent := readExponent?_written leading
  rcases digits with _ | ⟨first, _ | ⟨next, more⟩⟩
  · exact absurd rfl hDigits.ne_nil
  · have hText : scientific ⟨[first], leading⟩ =
        [first] ++ 'e' :: (if leading < 0 then '-' else '+') ::
          Nat.toDigits 10 leading.natAbs := rfl
    rw [hText, literalValue_whole hDigit (by simp), hExponent, value]
    simp
  · have hText : scientific ⟨first :: next :: more, leading⟩ =
        [first] ++ '.' :: (next :: more ++ 'e' :: (if leading < 0 then '-' else '+') ::
          Nat.toDigits 10 leading.natAbs) := rfl
    have hFirst : ∀ c ∈ [first], c.isDigit = true := by
      rw [List.forall_mem_singleton]
      exact hDigit first (by simp)
    have hRest : ∀ c ∈ next :: more, c.isDigit = true := fun c hMember =>
      hDigit c (List.mem_cons_of_mem first hMember)
    rw [hText, literalValue_point hFirst hRest (by simp), hExponent, value]
    simp

/-! ### Layouts -/

namespace Layout

variable (layout : Layout) {d : Digits}

/-- Where a layout puts the point, and whether it writes an exponent, changes no value. -/
theorem literalValue_writeDigits (hDigits : IsNumeral d.digits) :
    literalValue (layout.writeDigits d) = d.value := by
  unfold writeDigits
  split
  · exact Digits.literalValue_positional hDigits layout.keepsPoint
  · exact Digits.literalValue_scientific hDigits

theorem head_writeDigits (hDigits : IsNumeral d.digits) :
    ∃ c cs, layout.writeDigits d = c :: cs ∧ c.isDigit = true := by
  obtain ⟨digits, leading⟩ := d
  have hDigit := hDigits.isDigit
  cases digits with
  | nil => exact absurd rfl hDigits.ne_nil
  | cons first more =>
      have hFirst := hDigit first (by simp)
      unfold writeDigits
      split
      · unfold Digits.positional
        simp only
        split
        · exact ⟨'0', _, rfl, by decide⟩
        · split
          · exact ⟨first, _, rfl, hFirst⟩
          · exact ⟨first, _, rfl, hFirst⟩
      · cases more with
        | nil => exact ⟨first, _, rfl, hFirst⟩
        | cons next more => exact ⟨first, _, rfl, hFirst⟩

end Layout

/-! ### Bits -/

theorem unpackExponent_toNat (bits : UInt64) :
    (@Float.Model.UnpackedFloat.unpackExponent Float.Model.Format.binary64
      bits.toBitVec).toNat = bits.toNat / 2 ^ 52 % 2 ^ 11 := by
  simp [Float.Model.UnpackedFloat.unpackExponent, BitVec.extractLsb,
    Nat.shiftRight_eq_div_pow]

theorem exponent_ne_of_isFinite {x : Float} (hFinite : x.isFinite = true) :
    x.toBits.toNat / 0x10000000000000 % 0x800 ≠ 0x7FF := by
  intro hExponent
  have hVec : @Float.Model.UnpackedFloat.unpackExponent Float.Model.Format.binary64
      x.toModel.toBits.toBitVec = -1#_ := by
    apply BitVec.eq_of_toNat_eq
    rw [unpackExponent_toNat]
    exact hExponent
  have hNot : x.isFinite = false := by
    unfold Float.isFinite Float.Model.isFinite Float.Model.unpack
      Float.Model.UnpackedFloat.unpack
    simp only [hVec, if_true]
    split <;> rfl
  rw [hNot] at hFinite
  cases hFinite

theorem eq_of_toBits {x y : Float} (hBits : x.toBits.toNat = y.toBits.toNat) : x = y := by
  obtain ⟨⟨bits, hValid⟩⟩ := x
  obtain ⟨⟨others, hOther⟩⟩ := y
  have hSame : bits = others := UInt64.toNat_inj.mp hBits
  subst hSame
  rfl

namespace Parts

theorem exists_finite {x : Float} (hFinite : x.isFinite = true) :
    ∃ negative size, ofFloat x = .finite negative size ∧ size.IsBinary64 := by
  have hExponent := exponent_ne_of_isFinite hFinite
  unfold ofFloat
  simp only [if_neg hExponent]
  split
  · rename_i hZero
    have hFraction := Nat.mod_lt x.toBits.toNat (show 0 < 2 ^ 52 by decide)
    refine ⟨_, _, rfl, ⟨?_, ?_, ?_, ?_⟩⟩
    · simp only
      omega
    · simp
    · simp
    · simp
  · rename_i hNormal
    have hFraction := Nat.mod_lt x.toBits.toNat (show 0 < 2 ^ 52 by decide)
    refine ⟨_, _, rfl, ⟨?_, ?_, ?_, ?_⟩⟩
    · simp only
      omega
    · simp only
      omega
    · simp only
      omega
    · simp
      omega

theorem bits_of_finite {x : Float} {negative : Bool} {size : Binary}
    (hParts : ofFloat x = .finite negative size) :
    (negative = true ↔ x.toBits.toNat / 0x8000000000000000 = 1) ∧
      (x.toBits.toNat / 0x10000000000000 % 0x800 = 0 ∧
          size.significand = x.toBits.toNat % 0x10000000000000 ∧ size.power = -1074 ∨
        x.toBits.toNat / 0x10000000000000 % 0x800 ≠ 0 ∧
          size.significand = 0x10000000000000 + x.toBits.toNat % 0x10000000000000 ∧
          size.power = (x.toBits.toNat / 0x10000000000000 % 0x800 : Nat) - 1075) := by
  unfold ofFloat at hParts
  simp only at hParts
  split at hParts
  · split at hParts <;> cases hParts
  · split at hParts
    · rename_i hZero
      cases hParts
      exact ⟨decide_eq_true_iff, .inl ⟨hZero, rfl, rfl⟩⟩
    · rename_i hNormal
      cases hParts
      exact ⟨decide_eq_true_iff, .inr ⟨hNormal, rfl, rfl⟩⟩

theorem eq_of_finite {x y : Float} {negative : Bool} {size : Binary}
    (hx : ofFloat x = .finite negative size) (hy : ofFloat y = .finite negative size) : x = y := by
  have hxBound := x.toBits.toNat_lt
  have hyBound := y.toBits.toNat_lt
  obtain ⟨hxSign, hxSize⟩ := bits_of_finite hx
  obtain ⟨hySign, hySize⟩ := bits_of_finite hy
  apply eq_of_toBits
  have hSign := hxSign.symm.trans hySign
  omega

end Parts

/-! ### Different numbers have different texts -/

theorem Layout.write_finite (layout : Layout) {x : Float} {negative : Bool} {size : Binary}
    (hParts : Parts.ofFloat x = .finite negative size) :
    layout.write x =
      (if negative then ['-'] else []) ++ layout.writeDigits (size.shortest layout.tie) := by
  rw [write, hParts]

theorem sign_append_inj {negative negative' : Bool} {c c' : Char} {cs cs' : List Char}
    (hDigit : c.isDigit = true) (hDigit' : c'.isDigit = true)
    (hText : (if negative then ['-'] else []) ++ c :: cs =
      (if negative' then ['-'] else []) ++ c' :: cs') :
    negative = negative' ∧ c :: cs = c' :: cs' := by
  have hMinus : c ≠ '-' := ne_of_isDigit hDigit (by decide)
  have hMinus' : c' ≠ '-' := ne_of_isDigit hDigit' (by decide)
  cases negative with
  | true =>
      cases negative' with
      | true => exact ⟨rfl, by simpa using hText⟩
      | false => exact absurd (List.cons.inj hText).1.symm hMinus'
  | false =>
      cases negative' with
      | true => exact absurd (List.cons.inj hText).1 hMinus
      | false => exact ⟨rfl, hText⟩

theorem Binary.eq_of_shortest_value {x y : Binary} {tie : Tie} (hx : x.IsBinary64)
    (hy : y.IsBinary64) (hValue : (x.shortest tie).value = (y.shortest tie).value) : x = y := by
  have hxSpec := (x.shortest_spec tie).2
  have hySpec := (y.shortest_spec tie).2
  by_cases hxZero : x.significand = 0
  · rw [if_pos hxZero] at hxSpec
    by_cases hyZero : y.significand = 0
    · have hxPower := hx.normal
      have hyPower := hy.normal
      exact hx.eq_of_fields hy (by omega) (by omega)
    · rw [if_neg hyZero, ← hValue, hxSpec] at hySpec
      exact absurd (hySpec.pos (Nat.pos_of_ne_zero hyZero)) (lt_irrefl 0)
  · rw [if_neg hxZero] at hxSpec
    by_cases hyZero : y.significand = 0
    · rw [if_pos hyZero] at hySpec
      rw [hValue, hySpec] at hxSpec
      exact absurd (hxSpec.pos (Nat.pos_of_ne_zero hxZero)) (lt_irrefl 0)
    · rw [if_neg hyZero, ← hValue] at hySpec
      exact eq_of_covers hx hy hxSpec hySpec

/-- In one layout different finite numbers have different texts. -/
theorem Layout.write_injective {layout : Layout} {x y : Float} (hx : x.isFinite = true)
    (hy : y.isFinite = true) (hText : layout.write x = layout.write y) : x = y := by
  obtain ⟨negative, size, hxParts, hxSize⟩ := Parts.exists_finite hx
  obtain ⟨negative', size', hyParts, hySize⟩ := Parts.exists_finite hy
  have hxDigits := (size.shortest_spec layout.tie).1
  have hyDigits := (size'.shortest_spec layout.tie).1
  have hxValue := layout.literalValue_writeDigits hxDigits
  have hyValue := layout.literalValue_writeDigits hyDigits
  obtain ⟨c, cs, hxHead, hxDigit⟩ := layout.head_writeDigits hxDigits
  obtain ⟨c', cs', hyHead, hyDigit⟩ := layout.head_writeDigits hyDigits
  rw [layout.write_finite hxParts, layout.write_finite hyParts, hxHead, hyHead] at hText
  obtain ⟨hSign, hSame⟩ := sign_append_inj hxDigit hyDigit hText
  have hValue : (size.shortest layout.tie).value = (size'.shortest layout.tie).value := by
    rw [← hxValue, ← hyValue, hxHead, hyHead, hSame]
  have hSizes := Binary.eq_of_shortest_value hxSize hySize hValue
  subst hSign
  subst hSizes
  exact Parts.eq_of_finite hxParts hyParts

end Decimal
end RecordFilter

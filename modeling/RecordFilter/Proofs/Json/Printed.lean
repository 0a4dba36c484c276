/-
Different JSON values have different compact texts.

The first character of a text tells the kind of its value.  A string ends at the
quote that closes it, an array or object at its own bracket, and a number where
no character of a number follows, so that one printed value is told apart from
whatever stands after it.
-/
import RecordFilter.Json.Reader
import RecordFilter.Json.Printer
import RecordFilter.Proofs.Decimal.Written

namespace RecordFilter
namespace Json

open Decimal (IsNumeral ne_of_isDigit)

/-! ### Strings -/

theorem hexCode?_hexDigits :
    ∀ code < 0x20, hexCode? (Nat.digitChar (code / 4096 % 16)) (Nat.digitChar (code / 256 % 16))
      (Nat.digitChar (code / 16 % 16)) (Nat.digitChar (code % 16)) = some code := by
  decide

theorem readString?_escape (c : Char) (rest : List Char) :
    readString? none (escape c ++ rest) =
      (readString? none rest).map fun (chars, after) => (c :: chars, after) := by
  unfold escape
  split_ifs with hQuote hSlash hBackspace hFeed hLine hReturn hTab hControl
  · rw [hQuote]
    rfl
  · rw [hSlash]
    rfl
  · rw [hBackspace]
    rfl
  · rw [hFeed]
    rfl
  · rw [hLine]
    rfl
  · rw [hReturn]
    rfl
  · rw [hTab]
    rfl
  · have hCode := hexCode?_hexDigits c.toNat hControl
    have hTrailing : isTrailing c.toNat = false := by
      simp [isTrailing]
      omega
    have hLeading : isLeading c.toNat = false := by
      simp [isLeading]
      omega
    simp [hexDigits, readString?, hCode, hTrailing, hLeading]
  · simp [readString?, hSlash, hControl]

theorem readString?_escaped (text rest : List Char) :
    readString? none (text.flatMap escape ++ '"' :: rest) = some (text, rest) := by
  induction text with
  | nil => rfl
  | cons c text ih =>
      rw [List.flatMap_cons, List.append_assoc, readString?_escape, ih]
      rfl

theorem quote_append_inj {text text' rest rest' : List Char}
    (hText : quote text ++ rest = quote text' ++ rest') : text = text' ∧ rest = rest' := by
  simp only [quote, List.cons_append, List.append_assoc, List.nil_append, List.cons.injEq,
    true_and] at hText
  have hRead := readString?_escaped text rest
  rw [hText, readString?_escaped text' rest'] at hRead
  cases hRead
  exact ⟨rfl, rfl⟩

/-! ### Numbers -/

def isNumberChar (c : Char) : Bool :=
  c.isDigit || c = '-' || c = '+' || c = '.' || c = 'e'

/-- A text that does not go on with a number. -/
def Stops : List Char → Prop
  | [] => True
  | c :: _ => isNumberChar c = false

theorem stops_nil : Stops [] := trivial

theorem takeWhile_of_stops {text rest : List Char} (hText : ∀ c ∈ text, isNumberChar c = true)
    (hRest : Stops rest) : (text ++ rest).takeWhile isNumberChar = text := by
  rw [List.takeWhile_append_of_pos hText]
  cases rest with
  | nil => simp
  | cons c rest =>
      have hStop : ¬isNumberChar c = true := by
        rw [hRest]
        exact Bool.false_ne_true
      rw [List.takeWhile_cons_of_neg hStop, List.append_nil]

theorem number_append_inj {text text' rest rest' : List Char}
    (hText : ∀ c ∈ text, isNumberChar c = true) (hText' : ∀ c ∈ text', isNumberChar c = true)
    (hRest : Stops rest) (hRest' : Stops rest') (hSame : text ++ rest = text' ++ rest') :
    text = text' ∧ rest = rest' := by
  have hLeft := takeWhile_of_stops hText hRest
  have hRight := takeWhile_of_stops hText' hRest'
  have hTexts : text = text' := by
    rw [← hLeft, hSame, hRight]
  subst hTexts
  exact ⟨rfl, List.append_cancel_left hSame⟩

theorem isNumberChar_of_isDigit {c : Char} (hDigit : c.isDigit = true) :
    isNumberChar c = true := by
  simp [isNumberChar, hDigit]

theorem mem_writeInteger {n : Int} {c : Char} (hMem : c ∈ Decimal.writeInteger n) :
    c.isDigit = true ∨ c = '-' := by
  rcases List.mem_append.1 hMem with hSign | hDigit
  · split at hSign
    · exact .inr (List.mem_singleton.1 hSign)
    · cases hSign
  · exact .inl ((Decimal.isNumeral_toDigits n.natAbs).isDigit c hDigit)

section Digits

variable {d : Decimal.Digits} (hDigits : IsNumeral d.digits)
include hDigits

theorem mem_positional {keepsPoint : Bool} {c : Char} (hMem : c ∈ d.positional keepsPoint) :
    c.isDigit = true ∨ c = '.' := by
  unfold Decimal.Digits.positional at hMem
  split at hMem
  · rcases List.mem_append.1 hMem with hHead | hDigit
    · rcases List.mem_append.1 hHead with hPoint | hZero
      · rcases List.mem_pair.1 hPoint with rfl | rfl
        · exact .inl (by decide)
        · exact .inr rfl
      · exact .inl (Decimal.isDigit_zeros _ c hZero)
    · exact .inl (hDigits.isDigit c hDigit)
  · simp only at hMem
    split at hMem
    · rcases List.mem_append.1 hMem with hWhole | hPoint
      · rcases List.mem_append.1 hWhole with hDigit | hZero
        · exact .inl (hDigits.isDigit c hDigit)
        · exact .inl (Decimal.isDigit_zeros _ c hZero)
      · split at hPoint
        · rcases List.mem_pair.1 hPoint with rfl | rfl
          · exact .inr rfl
          · exact .inl (by decide)
        · cases hPoint
    · rcases List.mem_append.1 hMem with hWhole | hFraction
      · exact .inl (hDigits.isDigit c (List.mem_of_mem_take hWhole))
      · rcases List.mem_cons.1 hFraction with rfl | hDigit
        · exact .inr rfl
        · exact .inl (hDigits.isDigit c (List.mem_of_mem_drop hDigit))

theorem isNumberChar_scientific {c : Char} (hMem : c ∈ d.scientific) :
    isNumberChar c = true := by
  obtain ⟨digits, leading⟩ := d
  have hDigit : ∀ c ∈ digits, isNumberChar c = true :=
    fun c hMember => isNumberChar_of_isDigit (hDigits.isDigit c hMember)
  unfold Decimal.Digits.scientific at hMem
  rcases List.mem_append.1 hMem with hMantissa | hExponent
  · simp only at hMantissa
    split at hMantissa
    · simp only [List.mem_cons] at hMantissa
      rcases hMantissa with rfl | rfl | hRest
      · exact hDigit _ (by simp)
      · rfl
      · exact hDigit c (List.mem_cons_of_mem _ (List.mem_cons.2 hRest))
    · exact hDigit c hMantissa
  · rcases List.mem_cons.1 hExponent with rfl | hExponent
    · rfl
    rcases List.mem_cons.1 hExponent with rfl | hPower
    · split <;> rfl
    · exact isNumberChar_of_isDigit
        ((Decimal.isNumeral_toDigits leading.natAbs).isDigit c hPower)

theorem isNumberChar_writeDigits {layout : Decimal.Layout} {c : Char}
    (hMem : c ∈ layout.writeDigits d) : isNumberChar c = true := by
  unfold Decimal.Layout.writeDigits at hMem
  split at hMem
  · rcases mem_positional hDigits hMem with hDigit | rfl
    · exact isNumberChar_of_isDigit hDigit
    · rfl
  · exact isNumberChar_scientific hDigits hMem

omit hDigits in
theorem point_or_exponent_mem :
    '.' ∈ numberLayout.writeDigits d ∨ 'e' ∈ numberLayout.writeDigits d := by
  unfold Decimal.Layout.writeDigits
  split
  · left
    unfold Decimal.Digits.positional
    split
    · simp
    · simp only
      split <;> simp [numberLayout]
  · right
    simp [Decimal.Digits.scientific]

end Digits

theorem isNumberChar_sign {negative : Bool} {c : Char}
    (hMem : c ∈ if negative then ['-'] else []) : isNumberChar c = true := by
  split at hMem
  · rw [List.mem_singleton.1 hMem]
    rfl
  · cases hMem

theorem write_float (x : Finite) :
    ∃ (negative : Bool) (d : Decimal.Digits), IsNumeral d.digits ∧
      (Value.float x).write =
        (if negative then ['-'] else []) ++ numberLayout.writeDigits d := by
  obtain ⟨negative, size, hParts, -⟩ := Decimal.Parts.exists_finite x.isFinite
  refine ⟨negative, size.shortest numberLayout.tie, (size.shortest_spec _).1, ?_⟩
  rw [Value.write, Decimal.Layout.write_finite _ hParts]

/-! ### The first character -/

/-- The character that the values of a kind begin with.  All signs and digits count
as zero, and the two truth values as one kind. -/
@[simp]
def Value.initial : Value → Char
  | .null => 'n'
  | .bool _ => 't'
  | .integer _ => '0'
  | .float _ => '0'
  | .text _ => '"'
  | .array _ => '['
  | .object _ => '\x7b'

def initialOf (c : Char) : Char :=
  if isNumberChar c then '0' else if c = 'f' then 't' else c

theorem initialOf_number {c : Char} (hNumber : isNumberChar c = true) : initialOf c = '0' :=
  if_pos hNumber

theorem Value.isNumberChar_of_mem_write {v : Value} (hNumber : v.initial = '0') :
    ∀ c ∈ v.write, isNumberChar c = true := by
  intro c hMem
  match v with
  | .integer n =>
      rcases mem_writeInteger hMem with hDigit | rfl
      · exact isNumberChar_of_isDigit hDigit
      · rfl
  | .float x =>
      obtain ⟨negative, d, hDigits, hWrite⟩ := write_float x
      rw [hWrite] at hMem
      rcases List.mem_append.1 hMem with hSign | hDigit
      · exact isNumberChar_sign hSign
      · exact isNumberChar_writeDigits hDigits hDigit

theorem Value.write_ne_nil (v : Value) : v.write ≠ [] := by
  match v with
  | .integer n =>
      intro hNil
      exact (Decimal.isNumeral_toDigits n.value.natAbs).ne_nil (List.append_eq_nil_iff.1 hNil).2
  | .float x =>
      intro hNil
      obtain ⟨negative, d, hDigits, hWrite⟩ := write_float x
      obtain ⟨c, cs, hHead, -⟩ := numberLayout.head_writeDigits hDigits
      rw [hWrite, hHead] at hNil
      exact absurd (List.append_eq_nil_iff.1 hNil).2 (List.cons_ne_nil c cs)
  | .null | .bool true | .bool false | .text _ | .array _ | .object _ =>
      intro hNil
      cases hNil

theorem Value.head_write (v : Value) :
    ∃ c cs, v.write = c :: cs ∧ initialOf c = v.initial := by
  by_cases hNumber : v.initial = '0'
  · have hChars := isNumberChar_of_mem_write hNumber
    cases hWrite : v.write with
    | nil => exact absurd hWrite v.write_ne_nil
    | cons c cs =>
        rw [hWrite] at hChars
        refine ⟨c, cs, rfl, ?_⟩
        rw [hNumber]
        exact initialOf_number (hChars c List.mem_cons_self)
  · match v with
    | .null => exact ⟨'n', _, rfl, rfl⟩
    | .bool true => exact ⟨'t', _, rfl, rfl⟩
    | .bool false => exact ⟨'f', _, rfl, rfl⟩
    | .text s => exact ⟨'"', _, rfl, rfl⟩
    | .array items => exact ⟨'[', _, rfl, rfl⟩
    | .object entries => exact ⟨'\x7b', _, rfl, rfl⟩
    | .integer n => exact absurd rfl hNumber
    | .float x => exact absurd rfl hNumber

theorem initial_eq_of_append {v w : Value} {rest rest' : List Char}
    (hText : v.write ++ rest = w.write ++ rest') : v.initial = w.initial := by
  obtain ⟨c, cs, hv, hInitial⟩ := v.head_write
  obtain ⟨c', cs', hw, hInitial'⟩ := w.head_write
  rw [hv, hw] at hText
  have hHead : c = c' := (List.cons.inj hText).1
  rw [← hInitial, ← hInitial', hHead]

/-! ### Numbers of different values -/

theorem integer_write_ne_float (n : Whole) (x : Finite) :
    (Value.integer n).write ≠ (Value.float x).write := by
  intro hText
  obtain ⟨negative, d, -, hWrite⟩ := write_float x
  have hMem : '.' ∈ (Value.integer n).write ∨ 'e' ∈ (Value.integer n).write := by
    rw [hText, hWrite]
    rcases @point_or_exponent_mem d with hPoint | hExponent
    · exact .inl (List.mem_append_right _ hPoint)
    · exact .inr (List.mem_append_right _ hExponent)
  rcases hMem with hPoint | hExponent
  · exact absurd (mem_writeInteger hPoint) (by decide)
  · exact absurd (mem_writeInteger hExponent) (by decide)

theorem number_write_injective {v w : Value} (hv : v.initial = '0') (hw : w.initial = '0')
    (hText : v.write = w.write) : v = w := by
  match v, w with
  | .integer n, .integer m =>
      have hValue := Decimal.writeInteger_injective hText
      obtain ⟨value, hLow, hHigh⟩ := n
      subst hValue
      rfl
  | .integer n, .float x => exact absurd hText (integer_write_ne_float n x)
  | .float x, .integer n => exact absurd hText.symm (integer_write_ne_float n x)
  | .float x, .float y =>
      have hValue := Decimal.Layout.write_injective x.isFinite y.isFinite hText
      obtain ⟨value, hFinite⟩ := x
      subst hValue
      rfl

theorem number_write_append_inj {v w : Value} (hNumber : v.initial = '0') {rest rest' : List Char}
    (hRest : Stops rest) (hRest' : Stops rest') (hText : v.write ++ rest = w.write ++ rest') :
    v = w ∧ rest = rest' := by
  have hOther : w.initial = '0' := (initial_eq_of_append hText).symm.trans hNumber
  obtain ⟨hSame, hRests⟩ := number_append_inj (Value.isNumberChar_of_mem_write hNumber)
    (Value.isNumberChar_of_mem_write hOther) hRest hRest' hText
  exact ⟨number_write_injective hNumber hOther hSame, hRests⟩

/-! ### Values -/

def writeMoreItems : List Value → List Char
  | [] => []
  | item :: items => ',' :: writeItems (item :: items)

theorem writeItems_cons (item : Value) (items : List Value) (rest : List Char) :
    writeItems (item :: items) ++ rest = item.write ++ (writeMoreItems items ++ rest) := by
  cases items with
  | nil => rfl
  | cons next items =>
      rw [writeItems, writeMoreItems, List.append_assoc]

def writeMoreEntries : List (String × Value) → List Char
  | [] => []
  | entry :: entries => ',' :: writeEntries (entry :: entries)

theorem writeEntries_cons (key : String) (value : Value) (entries : List (String × Value))
    (rest : List Char) :
    writeEntries ((key, value) :: entries) ++ rest =
      quote key.toList ++ ':' :: (value.write ++ (writeMoreEntries entries ++ rest)) := by
  cases entries with
  | nil => simp [writeEntries, writeMoreEntries]
  | cons next entries => simp [writeEntries, writeMoreEntries]

theorem write_append_ne_close {v : Value} {rest rest' : List Char} :
    v.write ++ rest ≠ ']' :: rest' := by
  intro hText
  obtain ⟨c, cs, hWrite, hInitial⟩ := v.head_write
  rw [hWrite] at hText
  obtain ⟨rfl, -⟩ := List.cons.inj hText
  have hClose : initialOf ']' = ']' := by decide
  rw [hClose] at hInitial
  cases v <;> simp at hInitial

theorem stops_items (items : List Value) (rest : List Char) :
    Stops (writeMoreItems items ++ ']' :: rest) := by
  cases items <;> rfl

theorem stops_entries (entries : List (String × Value)) (rest : List Char) :
    Stops (writeMoreEntries entries ++ '\x7d' :: rest) := by
  cases entries <;> rfl

mutual

theorem write_append_inj : ∀ (v w : Value) {rest rest' : List Char}, Stops rest → Stops rest' →
    v.write ++ rest = w.write ++ rest' → v = w ∧ rest = rest'
  | .null, w, rest, rest', _, _, hText => by
      have hInitial := initial_eq_of_append hText
      cases w with
      | null => exact ⟨rfl, List.append_cancel_left hText⟩
      | _ => simp at hInitial
  | .bool b, w, rest, rest', _, _, hText => by
      have hInitial := initial_eq_of_append hText
      cases w with
      | bool b' =>
          cases b <;> cases b'
          · exact ⟨rfl, List.append_cancel_left hText⟩
          · exact absurd (List.cons.inj hText).1 (by decide)
          · exact absurd (List.cons.inj hText).1 (by decide)
          · exact ⟨rfl, List.append_cancel_left hText⟩
      | _ => simp at hInitial
  | .integer _, _, _, _, hRest, hRest', hText => number_write_append_inj rfl hRest hRest' hText
  | .float _, _, _, _, hRest, hRest', hText => number_write_append_inj rfl hRest hRest' hText
  | .text s, w, rest, rest', _, _, hText => by
      have hInitial := initial_eq_of_append hText
      cases w with
      | text t =>
          obtain ⟨hChars, hRests⟩ := quote_append_inj hText
          exact ⟨congrArg Value.text (String.toList_inj.1 hChars), hRests⟩
      | _ => simp at hInitial
  | .array items, w, rest, rest', _, _, hText => by
      have hInitial := initial_eq_of_append hText
      cases w with
      | array others =>
          simp only [Value.write, List.cons_append, List.append_assoc, List.nil_append,
            List.cons.injEq, true_and] at hText
          obtain ⟨hItems, hRests⟩ := writeItems_append_inj items others hText
          exact ⟨congrArg Value.array hItems, hRests⟩
      | _ => simp at hInitial
  | .object entries, w, rest, rest', _, _, hText => by
      have hInitial := initial_eq_of_append hText
      cases w with
      | object others =>
          simp only [Value.write, List.cons_append, List.append_assoc, List.nil_append,
            List.cons.injEq, true_and] at hText
          obtain ⟨hEntries, hRests⟩ := writeEntries_append_inj entries others hText
          exact ⟨congrArg Value.object hEntries, hRests⟩
      | _ => simp at hInitial

theorem writeItems_append_inj : ∀ (items others : List Value) {rest rest' : List Char},
    writeItems items ++ ']' :: rest = writeItems others ++ ']' :: rest' →
      items = others ∧ rest = rest'
  | [], [], _, _, hText => ⟨rfl, (List.cons.inj hText).2⟩
  | [], other :: others, _, _, hText => by
      rw [writeItems_cons] at hText
      exact absurd hText.symm write_append_ne_close
  | item :: items, [], _, _, hText => by
      rw [writeItems_cons] at hText
      exact absurd hText write_append_ne_close
  | item :: items, other :: others, rest, rest', hText => by
      rw [writeItems_cons, writeItems_cons] at hText
      obtain ⟨rfl, hMore⟩ := write_append_inj item other (stops_items items rest)
        (stops_items others rest') hText
      match items, others with
      | [], [] => exact ⟨rfl, (List.cons.inj hMore).2⟩
      | [], _ :: _ => exact absurd (List.cons.inj hMore).1 (by decide)
      | _ :: _, [] => exact absurd (List.cons.inj hMore).1 (by decide)
      | next :: items, next' :: others =>
          obtain ⟨hItems, hRests⟩ :=
            writeItems_append_inj (next :: items) (next' :: others) (List.cons.inj hMore).2
          exact ⟨congrArg (item :: ·) hItems, hRests⟩

theorem writeEntries_append_inj : ∀ (entries others : List (String × Value))
    {rest rest' : List Char},
    writeEntries entries ++ '\x7d' :: rest = writeEntries others ++ '\x7d' :: rest' →
      entries = others ∧ rest = rest'
  | [], [], _, _, hText => ⟨rfl, (List.cons.inj hText).2⟩
  | [], (key, value) :: others, _, _, hText => by
      rw [writeEntries_cons] at hText
      exact absurd (List.cons.inj hText).1 (by decide)
  | (key, value) :: entries, [], _, _, hText => by
      rw [writeEntries_cons] at hText
      exact absurd (List.cons.inj hText).1 (by decide)
  | (key, value) :: entries, (key', value') :: others, rest, rest', hText => by
      rw [writeEntries_cons, writeEntries_cons] at hText
      obtain ⟨hChars, hAfterKey⟩ := quote_append_inj hText
      obtain rfl := String.toList_inj.1 hChars
      obtain ⟨rfl, hMore⟩ := write_append_inj value value' (stops_entries entries rest)
        (stops_entries others rest') (List.cons.inj hAfterKey).2
      match entries, others with
      | [], [] => exact ⟨rfl, (List.cons.inj hMore).2⟩
      | [], _ :: _ => exact absurd (List.cons.inj hMore).1 (by decide)
      | _ :: _, [] => exact absurd (List.cons.inj hMore).1 (by decide)
      | next :: entries, next' :: others =>
          obtain ⟨hEntries, hRests⟩ :=
            writeEntries_append_inj (next :: entries) (next' :: others) (List.cons.inj hMore).2
          exact ⟨congrArg ((key, value) :: ·) hEntries, hRests⟩

end

/-- Different values have different texts, the signs of zero and the kinds of
number included. -/
theorem Value.write_injective {v w : Value} (hText : v.write = w.write) : v = w := by
  have hSame : v.write ++ [] = w.write ++ [] := by
    rw [hText]
  exact (write_append_inj v w stops_nil stops_nil hSame).1

theorem Value.write_inj {v w : Value} : v.write = w.write ↔ v = w :=
  ⟨write_injective, congrArg Value.write⟩

instance : DecidableEq Value := fun _ _ => decidable_of_iff _ Value.write_inj

end Json
end RecordFilter

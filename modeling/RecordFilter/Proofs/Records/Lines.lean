/-
Records written and read again.

The text of a value holds no control character and is not blank, so each written record
is one line and each line one record.  Records that were read once have their entries in
order and are not nested too deep; their texts are read as the records themselves, if
those of their floating numbers are.
-/
import RecordFilter.Records
import RecordFilter.Proofs.Json.ReadValues
import RecordFilter.Proofs.Selection.Sequence

namespace RecordFilter
namespace Json

/-! ### The characters of a printed value -/

def isVisible (c : Char) : Bool := 0x20 ≤ c.toNat

theorem bounds_number {c : Char} (hNumber : isNumberChar c = true) :
    0x20 < c.toNat ∧ c.toNat < 0x7F := by
  simp only [isNumberChar, Bool.or_eq_true, decide_eq_true_eq] at hNumber
  rcases hNumber with (((hDigit | rfl) | rfl) | rfl) | rfl
  · have hBounds : '0'.val ≤ c.val ∧ c.val ≤ '9'.val := by
      simpa [Char.isDigit] using hDigit
    have hLow : 48 ≤ c.toNat := UInt32.le_iff_toNat_le.1 hBounds.1
    have hHigh : c.toNat ≤ 57 := UInt32.le_iff_toNat_le.1 hBounds.2
    omega
  all_goals decide

theorem isVisible_number {c : Char} (hNumber : isNumberChar c = true) : isVisible c = true :=
  decide_eq_true (Nat.le_of_lt (bounds_number hNumber).1)

theorem isVisible_hexDigits {code : Nat} {c : Char} (hMem : c ∈ hexDigits code) :
    isVisible c = true := by
  have hDigit : ∀ n < 16, isVisible (Nat.digitChar n) = true := by decide
  obtain ⟨n, -, rfl⟩ := List.mem_map.1 hMem
  exact hDigit (n % 16) (Nat.mod_lt n (by decide))

theorem isVisible_escape {c d : Char} (hMem : d ∈ escape c) : isVisible d = true := by
  have hPair : ∀ letter : Char, isVisible letter = true → d ∈ ['\\', letter] →
      isVisible d = true := by
    intro letter hLetter hPair
    rcases List.mem_pair.1 hPair with rfl | rfl
    · rfl
    · exact hLetter
  unfold escape at hMem
  split_ifs at hMem with hQuote hSlash hBackspace hFeed hLine hReturn hTab hControl
  · exact hPair '"' rfl hMem
  · exact hPair '\\' rfl hMem
  · exact hPair 'b' rfl hMem
  · exact hPair 'f' rfl hMem
  · exact hPair 'n' rfl hMem
  · exact hPair 'r' rfl hMem
  · exact hPair 't' rfl hMem
  · rcases List.mem_cons.1 hMem with rfl | hMem
    · rfl
    rcases List.mem_cons.1 hMem with rfl | hMem
    · rfl
    · exact isVisible_hexDigits hMem
  · rw [List.mem_singleton.1 hMem]
    exact decide_eq_true (Nat.le_of_not_lt hControl)

theorem isVisible_quote {text : List Char} : ∀ c ∈ quote text, isVisible c = true := by
  rw [quote, List.forall_mem_append, List.forall_mem_cons, List.forall_mem_singleton]
  refine ⟨⟨rfl, ?_⟩, rfl⟩
  intro c hMem
  obtain ⟨source, -, hEscaped⟩ := List.mem_flatMap.1 hMem
  exact isVisible_escape hEscaped

mutual

theorem isVisible_write : ∀ (v : Value), ∀ c ∈ v.write, isVisible c = true
  | .null => List.all_eq_true.1 rfl
  | .bool true => List.all_eq_true.1 rfl
  | .bool false => List.all_eq_true.1 rfl
  | .integer n => fun c hMem => isVisible_number (Value.isNumberChar_of_mem_write rfl c hMem)
  | .float x => fun c hMem => isVisible_number (Value.isNumberChar_of_mem_write rfl c hMem)
  | .text s => isVisible_quote
  | .array items => by
      rw [Value.write, List.forall_mem_append, List.forall_mem_cons, List.forall_mem_singleton]
      exact ⟨⟨rfl, isVisible_writeItems items⟩, rfl⟩
  | .object entries => by
      rw [Value.write, List.forall_mem_append, List.forall_mem_cons, List.forall_mem_singleton]
      exact ⟨⟨rfl, isVisible_writeEntries entries⟩, rfl⟩

theorem isVisible_writeItems : ∀ (items : List Value), ∀ c ∈ writeItems items, isVisible c = true
  | [] => List.forall_mem_nil _
  | [item] => isVisible_write item
  | item :: next :: items => by
      rw [writeItems, List.forall_mem_append, List.forall_mem_cons]
      exact ⟨isVisible_write item, rfl, isVisible_writeItems (next :: items)⟩

theorem isVisible_writeEntries : ∀ (entries : List (String × Value)),
    ∀ c ∈ writeEntries entries, isVisible c = true
  | [] => List.forall_mem_nil _
  | [(key, value)] => by
      rw [writeEntries, List.forall_mem_append, List.forall_mem_cons]
      exact ⟨isVisible_quote, rfl, isVisible_write value⟩
  | (key, value) :: next :: entries => by
      rw [writeEntries, List.forall_mem_append, List.forall_mem_append, List.forall_mem_cons,
        List.forall_mem_cons]
      exact ⟨⟨isVisible_quote, rfl, isVisible_write value⟩, rfl,
        isVisible_writeEntries (next :: entries)⟩

end

theorem lineBreak_not_mem_write (v : Value) : '\n' ∉ v.write := by
  intro hMem
  have hVisible := isVisible_write v '\n' hMem
  cases hVisible

theorem isBlankChar_printable {c : Char} (hLow : 0x20 < c.toNat) (hHigh : c.toNat < 0x7F) :
    Text.isBlankChar c = false := by
  simp only [Text.isBlankChar, Text.blankRanges, List.any_cons, List.any_nil, Bool.or_false,
    Bool.or_eq_false_iff, Bool.and_eq_false_iff, decide_eq_false_iff_not]
  omega

theorem isBlank_write (v : Value) : Text.isBlank v.write = false := by
  obtain ⟨c, cs, hWrite, hInitial⟩ := v.head_write
  have hFirst : Text.isBlankChar c = false := by
    unfold initialOf at hInitial
    split_ifs at hInitial with hNumber hFalse
    · obtain ⟨hLow, hHigh⟩ := bounds_number hNumber
      exact isBlankChar_printable hLow hHigh
    · subst hFalse
      rfl
    · subst hInitial
      cases v <;> rfl
  rw [hWrite, Text.isBlank, List.all_cons, hFirst, Bool.false_and]

end Json

namespace Records

open Json (Value)

/-! ### One line for each record -/

theorem dropLastEmpty_append (pieces : List (List Char)) :
    dropLastEmpty (pieces ++ [[]]) = pieces := by
  induction pieces with
  | nil => rfl
  | cons piece pieces ih =>
      cases pieces with
      | nil => rfl
      | cons next pieces =>
          rw [List.cons_append] at ih
          rw [List.cons_append, List.cons_append, dropLastEmpty, ih]

theorem split_writeChars (records : List Value) :
    Text.split '\n' (writeChars records) = records.map Value.write ++ [[]] := by
  induction records with
  | nil => rfl
  | cons record records ih =>
      rw [writeChars, Text.split_append_separator (Json.lineBreak_not_mem_write record), ih]
      rfl

theorem lines_writeChars (records : List Value) :
    lines (writeChars records) = records.map Value.write := by
  rw [lines, split_writeChars, dropLastEmpty_append]

theorem count_writeChars (records : List Value) :
    (writeChars records).count '\n' = records.length := by
  induction records with
  | nil => rfl
  | cons record records ih =>
      have hNone : record.write.count '\n' = 0 :=
        List.count_eq_zero.2 (Json.lineBreak_not_mem_write record)
      rw [writeChars, List.count_append, List.count_cons_self, hNone, ih, List.length_cons]
      omega

/-! ### Reading the lines -/

theorem exists_text_of_ofLines {source : String} {number : Nat} {lines : List (List Char)}
    {records : List Value} (hRead : ofLines source number lines = .ok records) :
    ∀ record ∈ records, ∃ text, Value.ofText? text = some record := by
  induction lines generalizing number records with
  | nil =>
      cases hRead
      exact List.forall_mem_nil _
  | cons line lines ih =>
      rw [ofLines] at hRead
      split at hRead
      · exact ih hRead
      · split at hRead
        · cases hRead
        · rename_i record hRecord
          split at hRead
          · cases hRead
          · rename_i more hMore
            cases hRead
            exact List.forall_mem_cons.2 ⟨⟨line, hRecord⟩, ih hMore⟩

theorem ofLines_write (source : String) {records : List Value}
    (hReads : ∀ record ∈ records, Value.ofText? record.write = some record) (number : Nat) :
    ofLines source number (records.map Value.write) = .ok records := by
  induction records generalizing number with
  | nil => rfl
  | cons record records ih =>
      rw [List.forall_mem_cons] at hReads
      have hFilled : ¬Text.isBlank record.write = true := by
        rw [Json.isBlank_write]
        exact Bool.false_ne_true
      rw [List.map_cons, ofLines, if_neg hFilled, hReads.1, ih hReads.2]

theorem ofText?_write_of_read {source text : String} {records : List Value}
    (hRead : read source text = .ok records)
    (hFloats : ∀ record ∈ records, ∀ x ∈ record.floats, x.ReadsBack) :
    ∀ record ∈ records, Value.ofText? record.write = some record := by
  intro record hMem
  obtain ⟨line, hLine⟩ := exists_text_of_ofLines hRead record hMem
  have hFits := Value.fits_of_ofText? hLine
  rw [Value.ofText?_write hFits.depth_le (hFloats record hMem), hFits.arranged]

theorem read_write {records : List Value}
    (hReads : ∀ record ∈ records, Value.ofText? record.write = some record) (source : String) :
    read source (write records) = .ok records := by
  rw [read, write, String.toList_ofList, lines_writeChars]
  exact ofLines_write source hReads 1

/-- Records that were read are written on one line each, none of them blank, and what is
written is read as the same records in the same order; so is what a selection keeps of
them.  The texts of their floating numbers have to be read as these numbers. -/
theorem read_of_written {source text : String} {records : List Value}
    (hRead : read source text = .ok records)
    (hFloats : ∀ record ∈ records, ∀ x ∈ record.floats, x.ReadsBack) :
    (write records).toList.count '\n' = records.length ∧
    lines (write records).toList = records.map Value.write ∧
    (∀ line ∈ lines (write records).toList, Text.isBlank line = false) ∧
    (∀ name, read name (write records) = .ok records) ∧
    ∀ (selection : Selection) (evaluator : Evaluator) (found : List Value),
      selection.apply evaluator records = .ok found →
        ∀ name, read name (write found) = .ok found := by
  have hReads := ofText?_write_of_read hRead hFloats
  have hChars : (write records).toList = writeChars records := String.toList_ofList
  rw [hChars, lines_writeChars]
  refine ⟨count_writeChars records, rfl, ?_, read_write hReads, ?_⟩
  · intro line hLine
    obtain ⟨record, -, rfl⟩ := List.mem_map.1 hLine
    exact Json.isBlank_write record
  · intro selection evaluator found hApply
    apply read_write
    intro record hMem
    obtain ⟨-, rfl⟩ := (selection.apply_eq_ok_iff evaluator).1 hApply
    exact hReads record (List.mem_filter.1 ((selection.unrepeated_sublist _).subset hMem)).1

/-- Two records with a blank line between them: entries in another order and a key that is
repeated, escaped characters, and numbers of all kinds. -/
theorem read_of_written_nested :
    let text := "\x7b\"b\":[1,1.0,-5.0e-8],\"a\":0,\"a\":\"x\\ny\\u0001é\"\x7d\n \n18446744073709551615"
    let whole : Value := .integer ⟨1, by decide, by decide⟩
    let floating : Value := .float ⟨1.0, by rfl⟩
    let small : Value := .float ⟨-5.0e-8, by rfl⟩
    let first : Value :=
      .object [("a", .text "x\ny\x01é"), ("b", .array [whole, floating, small])]
    let second : Value := .integer ⟨18446744073709551615, by decide, by decide⟩
    read "in" text = .ok [first, second] ∧
      (∀ record ∈ [first, second], ∀ x ∈ record.floats, x.ReadsBack) ∧
      (write [first, second]).toList.count '\n' = 2 ∧
      read "out" (write [first, second]) = .ok [first, second] := by
  intro text whole floating small first second
  have hRead : read "in" text = .ok [first, second] := by
    decide +kernel
  have hFloats : ∀ record ∈ [first, second], ∀ x ∈ record.floats, x.ReadsBack := by
    decide +kernel
  have hWritten := read_of_written hRead hFloats
  exact ⟨hRead, hFloats, hWritten.1, hWritten.2.2.2.1 "out"⟩

end Records
end RecordFilter

/-
Records line by line.

A line ends at a line break, and a carriage return right in front of the break belongs to it.
What stands behind the last break is a line as well, unless it is empty (`linesOf`).  A text is
read line by line: the records of one text behind another are those of both, and only the
numbers of the lines move on.
-/
import RecordFilter.Command.Select
import RecordFilter.Proofs.Json.Trailing
import RecordFilter.Proofs.Records.FirstFault

namespace RecordFilter
namespace Records

open Json (Value)

/-! ### Lines -/

def withoutReturn (line : List Char) : List Char :=
  if line.getLast? = some '\r' then line.dropLast else line

def endedLines : List (List Char) → List (List Char)
  | [] => []
  | [last] => if last = [] then [] else [last]
  | line :: next :: more => withoutReturn line :: endedLines (next :: more)

def linesOf (text : String) : List (List Char) := endedLines (Text.split '\n' text.toList)

theorem withoutReturn_cases (line : List Char) :
    withoutReturn line = line ∨ line = withoutReturn line ++ ['\r'] := by
  unfold withoutReturn
  split
  · rename_i hReturn
    obtain ⟨front, rfl⟩ := List.getLast?_eq_some_iff.mp hReturn
    rw [List.dropLast_concat]
    exact .inr rfl
  · exact .inl rfl

theorem endedLines_append (ended : List (List Char)) {pieces : List (List Char)}
    (hPieces : pieces ≠ []) :
    endedLines (ended ++ pieces) = ended.map withoutReturn ++ endedLines pieces := by
  induction ended with
  | nil => rfl
  | cons line ended ih =>
      cases hRest : ended ++ pieces with
      | nil => exact absurd (List.append_eq_nil_iff.mp hRest).2 hPieces
      | cons next more =>
          rw [List.cons_append, hRest, endedLines, ← hRest, ih, List.map_cons, List.cons_append]

theorem linesOf_append {text : String} (hEnded : text = "" ∨ ∃ front, text = front ++ "\n")
    (more : String) : linesOf (text ++ more) = linesOf text ++ linesOf more := by
  rcases hEnded with rfl | ⟨front, rfl⟩
  · rw [String.empty_append]
    rfl
  · have hLines : ∀ rest : List Char,
        endedLines (Text.split '\n' (front.toList ++ '\n' :: rest)) =
          (Text.split '\n' front.toList).map withoutReturn ++
            endedLines (Text.split '\n' rest) := by
      intro rest
      rw [Text.split_append, endedLines_append _ (Text.split_ne_nil '\n' rest)]
    have hText : linesOf (front ++ "\n") = (Text.split '\n' front.toList).map withoutReturn := by
      rw [linesOf, String.toList_append]
      exact (hLines []).trans (List.append_nil _)
    rw [hText, linesOf, String.toList_append, String.toList_append, List.append_assoc]
    exact hLines more.toList

/-! ### Carriage returns are blanks -/

theorem isBlank_withoutReturn (line : List Char) :
    Text.isBlank (withoutReturn line) = Text.isBlank line := by
  rcases withoutReturn_cases line with hSame | hReturn
  · rw [hSame]
  · conv => rhs; rw [hReturn]
    rw [Text.isBlank, Text.isBlank, List.all_append]
    exact (Bool.and_true _).symm

theorem ofText?_withoutReturn (line : List Char) :
    Value.ofText? (withoutReturn line) = Value.ofText? line := by
  rcases withoutReturn_cases line with hSame | hReturn
  · rw [hSame]
  · conv => rhs; rw [hReturn]
    exact (Value.ofText?_append_blank rfl _).symm

theorem ofLines_endedLines (source : String) (number : Nat) (pieces : List (List Char)) :
    ofLines source number (endedLines pieces) = ofLines source number (dropLastEmpty pieces) := by
  induction pieces generalizing number with
  | nil => rfl
  | cons line pieces ih =>
      cases pieces with
      | nil => rfl
      | cons next more =>
          rw [endedLines, dropLastEmpty, ofLines, ofLines, isBlank_withoutReturn,
            ofText?_withoutReturn, ih]

theorem read_eq_linesOf (source text : String) :
    read source text = ofLines source 1 (linesOf text) :=
  (ofLines_endedLines source 1 _).symm

/-! ### Reading some lines -/

theorem ofLines_eq_ok_iff {source : String} {number : Nat} {lines : List (List Char)}
    {records : List Value} :
    ofLines source number lines = .ok records ↔
      (lines.filter fun line => !Text.isBlank line).map Value.ofText? = records.map some := by
  induction lines generalizing number records with
  | nil =>
      cases records with
      | nil => exact iff_of_true rfl rfl
      | cons record records => exact iff_of_false nofun nofun
  | cons line lines ih =>
      by_cases hBlank : Text.isBlank line = true
      · rw [ofLines, if_pos hBlank, ih, List.filter_cons_of_neg (by simp [hBlank])]
      · rw [ofLines, if_neg hBlank, List.filter_cons_of_pos (by simp [hBlank]), List.map_cons]
        cases Value.ofText? line with
        | none =>
            constructor
            · intro hRead
              cases hRead
            · intro hValues
              cases records <;> cases hValues
        | some record =>
            constructor
            · intro hRead
              cases hMore : ofLines source (number + 1) lines with
              | error fault =>
                  rw [hMore] at hRead
                  cases hRead
              | ok others =>
                  rw [hMore] at hRead
                  cases hRead
                  rw [ih.mp hMore, List.map_cons]
            · intro hValues
              cases records with
              | nil => cases hValues
              | cons first others =>
                  obtain ⟨hFirst, hOthers⟩ := List.cons.inj hValues
                  cases hFirst
                  rw [ih.mpr hOthers]

theorem ofLines_add (source : String) (number count : Nat) (lines : List (List Char)) :
    ofLines source (number + count) lines =
      (ofLines source number lines).mapError
        fun fault => { fault with line := fault.line + count } := by
  induction lines generalizing number with
  | nil => rfl
  | cons line lines ih =>
      rw [ofLines, ofLines, Nat.add_right_comm, ih]
      by_cases hBlank : Text.isBlank line = true
      · rw [if_pos hBlank, if_pos hBlank]
      · rw [if_neg hBlank, if_neg hBlank]
        cases Value.ofText? line with
        | none => rfl
        | some record => cases ofLines source (number + 1) lines <;> rfl

/-! ### Reading a text -/

/-- A text is read line by line.  There are records exactly if each line that is not blank is
the text of a value, and they are these values in order; otherwise the error names the source
and the number of the first line that is neither, blank lines counted.  Behind a text that is
empty or ends in a line break, another one is read as it would be on its own: the records
follow those of the first text, and the number of a line is counted from its last one. -/
theorem read_line_by_line (source text : String) :
    (∀ records, read source text = .ok records ↔
      ((linesOf text).filter fun line => !Text.isBlank line).map Value.ofText? =
        records.map some) ∧
    (∀ fault, read source text = .error fault ↔
      ∃ before line after, linesOf text = before ++ line :: after ∧
        (∀ earlier ∈ before, IsReadable earlier) ∧ ¬IsReadable line ∧
        fault = ⟨source, before.length + 1⟩ ∧
        (Command.SelectError.badRecord fault).message =
          "Select: " ++ source ++ ":" ++ toString (before.length + 1) ++
            ": invalid JSON record") ∧
    (text = "" ∨ (∃ front, text = front ++ "\n") → ∀ more,
      (∀ fault, read source text = .error fault → read source (text ++ more) = .error fault) ∧
      ∀ records, read source text = .ok records →
        (∀ others, read source more = .ok others →
          read source (text ++ more) = .ok (records ++ others)) ∧
        ∀ fault, read source more = .error fault →
          read source (text ++ more) =
            .error { fault with line := fault.line + (linesOf text).length }) := by
  refine ⟨?_, ?_, ?_⟩
  · intro records
    rw [read_eq_linesOf]
    exact ofLines_eq_ok_iff
  · intro fault
    rw [read_eq_linesOf, ofLines_eq_error_iff]
    constructor
    · rintro ⟨before, line, after, hLines, hBefore, hLine, rfl⟩
      rw [Nat.add_comm 1]
      exact ⟨before, line, after, hLines, hBefore, hLine, rfl, rfl⟩
    · rintro ⟨before, line, after, hLines, hBefore, hLine, rfl, -⟩
      exact ⟨before, line, after, hLines, hBefore, hLine, by rw [Nat.add_comm 1]⟩
  · intro hEnded more
    have hBoth : read source (text ++ more) =
        (read source text).bind fun records =>
          ((read source more).mapError
            fun fault => { fault with line := fault.line + (linesOf text).length }).map
              fun others => records ++ others := by
      rw [read_eq_linesOf, read_eq_linesOf, read_eq_linesOf, linesOf_append hEnded,
        ofLines_append, ofLines_add]
    refine ⟨?_, ?_⟩
    · intro fault hText
      rw [hBoth, hText]
      rfl
    · intro records hText
      refine ⟨?_, ?_⟩
      · intro others hMore
        rw [hBoth, hText, hMore]
        rfl
      · intro fault hMore
        rw [hBoth, hText, hMore]
        rfl

/-- A record, a blank line with a carriage return, and another text behind them whose second
line is no record. -/
theorem read_line_by_line_behind :
    let text := "1\r\n \r\n"
    let more := "\"a\"\nnone"
    (∃ front, text = front ++ "\n") ∧
      read "in" text = .ok [.integer ⟨1, by decide, by decide⟩] ∧
      read "in" more = .error ⟨"in", 2⟩ ∧
      read "in" (text ++ more) = .error ⟨"in", 4⟩ := by
  intro text more
  have hEnded : ∃ front, text = front ++ "\n" := ⟨"1\r\n \r", rfl⟩
  have hText : read "in" text = .ok [.integer ⟨1, by decide, by decide⟩] := by decide +kernel
  have hMore : read "in" more = .error ⟨"in", 2⟩ := by decide +kernel
  have hCount : (linesOf text).length = 2 := by decide
  obtain ⟨-, -, hBehind⟩ := read_line_by_line "in" text
  have hBoth := ((hBehind (.inr hEnded) more).2 _ hText).2 _ hMore
  rw [hCount] at hBoth
  exact ⟨hEnded, hText, hMore, hBoth⟩

end Records
end RecordFilter

/-
The first line that is no record.

A text is read line by line.  Lines that are blank or hold a record never stop the reader
and only add their records; the first other line is named by its number.
-/
import Mathlib.Tactic.ByContra
import RecordFilter.Records

namespace RecordFilter

open Json (Value)

/-- Of members that do not all have a property there is a first one. -/
theorem exists_first_without {α : Type} {P : α → Prop} {members : List α}
    (hSome : ¬∀ member ∈ members, P member) :
    ∃ before member after, members = before ++ member :: after ∧
      (∀ earlier ∈ before, P earlier) ∧ ¬P member := by
  induction members with
  | nil => exact absurd (List.forall_mem_nil P) hSome
  | cons first members ih =>
      by_cases hFirst : P first
      · obtain ⟨before, member, after, hMembers, hBefore, hMember⟩ :=
          ih fun hRest => hSome (List.forall_mem_cons.2 ⟨hFirst, hRest⟩)
        refine ⟨first :: before, member, after, ?_, ?_, hMember⟩
        · rw [hMembers, List.cons_append]
        · exact List.forall_mem_cons.2 ⟨hFirst, hBefore⟩
      · exact ⟨[], first, members, rfl, List.forall_mem_nil P, hFirst⟩

namespace Records

def IsReadable (line : List Char) : Prop :=
  Text.isBlank line = true ∨ ∃ record, Value.ofText? line = some record

theorem ofLines_append (source : String) (number : Nat) (front back : List (List Char)) :
    ofLines source number (front ++ back) =
      (ofLines source number front).bind fun records =>
        (ofLines source (number + front.length) back).map fun others => records ++ others := by
  induction front generalizing number with
  | nil =>
      rw [List.nil_append, List.length_nil, Nat.add_zero]
      cases ofLines source number back <;> rfl
  | cons line front ih =>
      have hNumber : number + (line :: front).length = number + 1 + front.length := by
        rw [List.length_cons]
        omega
      rw [List.cons_append, ofLines, ofLines, ih, hNumber]
      by_cases hBlank : Text.isBlank line = true
      · rw [if_pos hBlank, if_pos hBlank]
      · rw [if_neg hBlank, if_neg hBlank]
        cases Value.ofText? line with
        | none => rfl
        | some record =>
            cases ofLines source (number + 1) front with
            | error fault => rfl
            | ok records => cases ofLines source (number + 1 + front.length) back <;> rfl

theorem exists_ofLines_of_readable {lines : List (List Char)}
    (hLines : ∀ line ∈ lines, IsReadable line) :
    ∃ found, ∀ source number, ofLines source number lines = .ok found := by
  induction lines with
  | nil => exact ⟨[], fun _ _ => rfl⟩
  | cons line lines ih =>
      obtain ⟨hLine, hRest⟩ := List.forall_mem_cons.1 hLines
      obtain ⟨found, hFound⟩ := ih hRest
      by_cases hBlank : Text.isBlank line = true
      · refine ⟨found, ?_⟩
        intro source number
        rw [ofLines, if_pos hBlank, hFound]
      · obtain ⟨record, hRecord⟩ := hLine.resolve_left hBlank
        refine ⟨record :: found, ?_⟩
        intro source number
        rw [ofLines, if_neg hBlank, hRecord, hFound]

theorem ofLines_of_not_readable {line : List Char} (hLine : ¬IsReadable line) (source : String)
    (number : Nat) (after : List (List Char)) :
    ofLines source number (line :: after) = .error ⟨source, number⟩ := by
  have hFilled : ¬Text.isBlank line = true := fun hBlank => hLine (.inl hBlank)
  rw [ofLines, if_neg hFilled]
  cases hRecord : Value.ofText? line with
  | none => rfl
  | some record => exact absurd (.inr ⟨record, hRecord⟩) hLine

/-- What cannot be read is the first line that is neither blank nor a record. -/
theorem ofLines_eq_error_iff {source : String} {number : Nat} {lines : List (List Char)}
    {fault : Fault} :
    ofLines source number lines = .error fault ↔
      ∃ before line after, lines = before ++ line :: after ∧
        (∀ earlier ∈ before, IsReadable earlier) ∧ ¬IsReadable line ∧
        fault = ⟨source, number + before.length⟩ := by
  have hFails : ∀ before line after, lines = before ++ line :: after →
      (∀ earlier ∈ before, IsReadable earlier) → ¬IsReadable line →
        ofLines source number lines = .error ⟨source, number + before.length⟩ := by
    rintro before line after rfl hBefore hLine
    obtain ⟨found, hFound⟩ := exists_ofLines_of_readable hBefore
    rw [ofLines_append, hFound, ofLines_of_not_readable hLine]
    rfl
  constructor
  · intro hRead
    have hSome : ¬∀ line ∈ lines, IsReadable line := by
      intro hAll
      obtain ⟨found, hFound⟩ := exists_ofLines_of_readable hAll
      rw [hFound] at hRead
      cases hRead
    obtain ⟨before, line, after, hLines, hBefore, hLine⟩ := exists_first_without hSome
    rw [hFails before line after hLines hBefore hLine] at hRead
    cases hRead
    exact ⟨before, line, after, hLines, hBefore, hLine, rfl⟩
  · rintro ⟨before, line, after, hLines, hBefore, hLine, rfl⟩
    exact hFails before line after hLines hBefore hLine

theorem read_of_not_readable {source text : String} {before after : List (List Char)}
    {line : List Char} (hLines : lines text.toList = before ++ line :: after)
    (hBefore : ∀ earlier ∈ before, IsReadable earlier) (hLine : ¬IsReadable line) :
    read source text = .error ⟨source, before.length + 1⟩ := by
  rw [read, Nat.add_comm]
  exact ofLines_eq_error_iff.mpr ⟨before, line, after, hLines, hBefore, hLine, rfl⟩

theorem exists_of_isReadable {text : String}
    (hLines : ∀ line ∈ lines text.toList, IsReadable line) :
    ∃ records, ∀ source, read source text = .ok records := by
  obtain ⟨found, hFound⟩ := exists_ofLines_of_readable hLines
  exact ⟨found, fun source => hFound source 1⟩

theorem isReadable_of_read {source text : String} {records : List Value}
    (hRead : read source text = .ok records) : ∀ line ∈ lines text.toList, IsReadable line := by
  by_contra hSome
  obtain ⟨before, line, after, hLines, hBefore, hLine⟩ := exists_first_without hSome
  rw [read_of_not_readable hLines hBefore hLine] at hRead
  cases hRead

/-- The fault of a text is its first line that is neither blank nor a record. -/
theorem exists_line_of_read {source text : String} {fault : Fault}
    (hRead : read source text = .error fault) :
    ∃ before line after, lines text.toList = before ++ line :: after ∧
      (∀ earlier ∈ before, IsReadable earlier) ∧ ¬IsReadable line ∧
      fault = ⟨source, before.length + 1⟩ := by
  obtain ⟨before, line, after, hLines, hBefore, hLine, rfl⟩ := ofLines_eq_error_iff.mp hRead
  rw [Nat.add_comm]
  exact ⟨before, line, after, hLines, hBefore, hLine, rfl⟩

end Records

end RecordFilter

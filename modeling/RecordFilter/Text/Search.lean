/-
Whether one text begins, ends or occurs in another.

Characters are compared one by one, so the answers are those of a search over
code points; `occursIn_iff` says that `occursIn` finds exactly the texts that
stand somewhere without a gap.
-/

namespace RecordFilter
namespace Text

def beginsWith (text sought : List Char) : Bool :=
  sought.isPrefixOf text

def endsWith (text sought : List Char) : Bool :=
  sought.isSuffixOf text

def occursIn (sought : List Char) : List Char → Bool
  | [] => sought.isEmpty
  | c :: cs => sought.isPrefixOf (c :: cs) || occursIn sought cs

/-- A text occurs exactly where something can be put in front of it and
behind it to give the other text. -/
theorem occursIn_iff (sought text : List Char) :
    occursIn sought text = true ↔ ∃ before after, text = before ++ sought ++ after := by
  induction text with
  | nil =>
      simp only [occursIn, List.isEmpty_iff]
      constructor
      · rintro rfl
        exact ⟨[], [], rfl⟩
      · rintro ⟨before, after, h⟩
        simp at h
        exact h.2.1
  | cons c cs ih =>
      simp only [occursIn, Bool.or_eq_true, ih, List.isPrefixOf_iff_prefix]
      constructor
      · rintro (⟨after, h⟩ | ⟨before, after, h⟩)
        · exact ⟨[], after, by simpa using h.symm⟩
        · exact ⟨c :: before, after, by simp [h]⟩
      · rintro ⟨before, after, h⟩
        cases before with
        | nil => exact Or.inl ⟨after, by simpa using h.symm⟩
        | cons b bs =>
            simp only [List.cons_append, List.cons.injEq] at h
            exact Or.inr ⟨bs, after, h.2⟩

end Text
end RecordFilter

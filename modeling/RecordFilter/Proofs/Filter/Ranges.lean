/-
Ranges of an array of tokens.

Brackets and connectives are looked for at positions of the whole array, but only at those
of the range that is read.  What a range denotes is therefore what a copy of it denotes, and
what the text of its tokens does.
-/
import Mathlib
import RecordFilter.Proofs.Filter.Reading

namespace RecordFilter
namespace Filter

variable {tokens : List String} {start stop : Nat}

theorem parseRange_eq_ofTokens (hOrder : start ≤ stop) (hStop : stop < tokens.length) :
    parseRange tokens start stop =
      ofTokens ((tokens.extract start (stop + 1)).map String.toList) := by
  have hSize : stop < (tokens.map String.toList).toArray.size := by simpa using hStop
  rw [parseRange, parseTokens_eq_ofTokens hOrder hSize]
  simp only [List.extract, List.map_take, List.map_drop]

/-- The text of tokens that are not empty and hold no delimiter denotes what they do. -/
theorem parse_spanText {tokens : List Token} (hTokens : tokens ≠ [])
    (hFree : ∀ token ∈ tokens, token ≠ [] ∧ delimiter ∉ token) :
    parse (spanText tokens) = (ofTokens tokens).map some := by
  have hSplit : Text.split delimiter (spanText tokens).toList = tokens := by
    rw [spanText, String.toList_ofList]
    exact Text.split_join hTokens fun token hMember => (hFree token hMember).2
  have hText : spanText tokens ≠ "" := by
    intro hEmpty
    rw [hEmpty] at hSplit
    have hPiece : [] ∈ tokens := hSplit ▸ List.mem_singleton.mpr rfl
    exact (hFree [] hPiece).1 rfl
  have hSome : ∀ token ∈ Text.split delimiter (spanText tokens).toList, token ≠ [] := by
    rw [hSplit]
    exact fun token hMember => (hFree token hMember).1
  rw [parse_of_tokens hText hSome, hSplit]
  cases ofTokens tokens <;> rfl

/-- What a range of tokens denotes depends on no token outside of it.  The range is read like
a copy of its tokens, with the same tree or the same error and the same spans in it, and like
their text, if none of them is empty or holds a delimiter. -/
theorem parseRange_eq_slice (hOrder : start ≤ stop) (hStop : stop < tokens.length) :
    let slice := tokens.extract start (stop + 1)
    parseRange tokens start stop = parseRange slice 0 (slice.length - 1) ∧
      ((∀ token ∈ slice, token ≠ "" ∧ delimiter ∉ token.toList) →
        parse (spanText (slice.map String.toList)) = (parseRange tokens start stop).map some) := by
  intro slice
  have hLength : slice.length = stop + 1 - start := by
    simp only [slice, List.extract, List.length_take, List.length_drop]
    omega
  have hRange : parseRange tokens start stop = ofTokens (slice.map String.toList) :=
    parseRange_eq_ofTokens hOrder hStop
  constructor
  · have hWhole : slice.extract 0 (slice.length - 1 + 1) = slice := by
      have hEnd : slice.length - 1 + 1 = slice.length := by omega
      rw [hEnd, List.extract, List.drop_zero, Nat.sub_zero, List.take_length]
    rw [hRange, parseRange_eq_ofTokens (Nat.zero_le _) (by omega), hWhole]
  · intro hFree
    have hSome : slice.map String.toList ≠ [] := by
      rw [← List.length_pos_iff, List.length_map]
      omega
    rw [hRange]
    apply parse_spanText hSome
    intro token hMember
    obtain ⟨text, hText, rfl⟩ := List.mem_map.mp hMember
    obtain ⟨hNonempty, hDelimiter⟩ := hFree text hText
    exact ⟨fun hEmpty => hNonempty (String.toList_eq_nil_iff.mp hEmpty), hDelimiter⟩

/-- A level in brackets between tokens that would not be read, and a range that ends inside
of it. -/
theorem parseRange_eq_slice_between_others :
    let tokens := ["", "and", "(a", "eq", "1", "or", "b", "eq", "2)", "x~y", "c)"]
    let tree : Filter := .any [.leaf "a" "eq" (.text "1"), .leaf "b" "eq" (.text "2")]
    8 < tokens.length ∧
      parseRange tokens 2 8 = .ok tree ∧
      parseRange ["(a", "eq", "1", "or", "b", "eq", "2)"] 0 6 = .ok tree ∧
      parse "(a~eq~1~or~b~eq~2)" = .ok (some tree) ∧
      parseRange tokens 2 4 = .error (.unbalancedBrackets "(a~eq~1") ∧
      parse "(a~eq~1" = .error (.unbalancedBrackets "(a~eq~1") := by
  intro tokens tree
  have hStop : 8 < tokens.length := by decide
  have hShorter : 4 < tokens.length := by decide
  have hTree : parseRange tokens 2 8 = .ok tree := by
    rw [parseRange_eq_ofTokens (Nat.le_add_left 2 6) hStop]
    cbv
  have hError : parseRange tokens 2 4 = .error (.unbalancedBrackets "(a~eq~1") := by
    rw [parseRange_eq_ofTokens (Nat.le_add_left 2 2) hShorter]
    cbv
  obtain ⟨hCopy, hText⟩ := parseRange_eq_slice (Nat.le_add_left 2 6) hStop
  obtain ⟨-, hShorterText⟩ := parseRange_eq_slice (Nat.le_add_left 2 2) hShorter
  rw [hTree] at hCopy hText
  rw [hError] at hShorterText
  exact ⟨hStop, hTree, hCopy.symm, hText (by decide), hError, hShorterText (by decide)⟩

end Filter
end RecordFilter

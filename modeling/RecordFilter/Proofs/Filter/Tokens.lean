/-
The tokens of a text and the text of tokens.

A text is cut into pieces without delimiters in one way only (`piecesOf_iff`).  Its pieces are
its tokens if none of them is empty, which is seen from the delimiters of the text; otherwise
the error counts the pieces in front of the first empty one.
-/
import RecordFilter.Filter.Token

namespace RecordFilter
namespace Filter

/-- The pieces of a text: runs without a delimiter that give the text when they are joined. -/
structure PiecesOf (input : String) (pieces : List Token) : Prop where
  some : pieces ≠ []
  free : ∀ piece ∈ pieces, delimiter ∉ piece
  joined : spanText pieces = input

theorem piecesOf_iff {input : String} {pieces : List Token} :
    PiecesOf input pieces ↔ Text.split delimiter input.toList = pieces := by
  have hJoined : spanText pieces = input ↔ Text.join delimiter pieces = input.toList := by
    rw [spanText, ← String.toList_inj, String.toList_ofList]
  rw [Text.split_eq_iff, ← hJoined]
  constructor
  · intro hPieces
    exact ⟨hPieces.some, hPieces.free, hPieces.joined⟩
  · intro hPieces
    obtain ⟨hSome, hFree, hInput⟩ := hPieces
    exact ⟨hSome, hFree, hInput⟩

theorem tokenize_eq_ok_iff {input : String} {tokens : List Token} :
    tokenize input = .ok tokens ↔
      tokens = Text.split delimiter input.toList ∧ ∀ token ∈ tokens, token ≠ [] := by
  unfold tokenize
  simp only
  cases hEmpty : firstEmpty? 0 (Text.split delimiter input.toList) with
  | none =>
      have hAll := (firstEmpty?_eq_none_iff 0 _).mp hEmpty
      simp only [Except.ok.injEq]
      constructor
      · rintro rfl
        exact ⟨rfl, hAll⟩
      · rintro ⟨rfl, -⟩
        rfl
  | some position =>
      simp only [reduceCtorEq, false_iff, not_and]
      rintro rfl hAll
      rw [(firstEmpty?_eq_none_iff 0 _).mpr hAll] at hEmpty
      cases hEmpty

theorem exists_tokenize_iff {input : String} :
    (∃ tokens, tokenize input = .ok tokens) ↔ [] ∉ Text.split delimiter input.toList := by
  constructor
  · intro hTokens hEmpty
    obtain ⟨tokens, hTokens⟩ := hTokens
    obtain ⟨rfl, hSome⟩ := tokenize_eq_ok_iff.mp hTokens
    exact hSome [] hEmpty rfl
  · intro hSome
    exact ⟨_, tokenize_eq_ok_iff.mpr ⟨rfl, fun token hToken hNil => hSome (hNil ▸ hToken)⟩⟩

theorem tokenize_eq_error_iff {input : String} {error : GrammarError} :
    tokenize input = .error error ↔
      ∃ before after, Text.split delimiter input.toList = before ++ [] :: after ∧
        (∀ piece ∈ before, piece ≠ []) ∧ error = .emptyToken before.length := by
  constructor
  · intro hError
    by_cases hEmpty : [] ∈ Text.split delimiter input.toList
    · obtain ⟨before, after, hPieces, hFirst⟩ := List.eq_append_cons_of_mem hEmpty
      have hBefore : ∀ piece ∈ before, piece ≠ [] := fun piece hPiece hNil =>
        hFirst (hNil ▸ hPiece)
      rw [tokenize, hPieces, firstEmpty?_append 0 hBefore after, Nat.zero_add] at hError
      cases hError
      exact ⟨before, after, hPieces, hBefore, rfl⟩
    · obtain ⟨tokens, hTokens⟩ := exists_tokenize_iff.mpr hEmpty
      rw [hTokens] at hError
      cases hError
  · intro hPieces
    obtain ⟨before, after, hPieces, hBefore, rfl⟩ := hPieces
    rw [tokenize, hPieces, firstEmpty?_append 0 hBefore after, Nat.zero_add]

/-- A text has tokens exactly if it is not empty, neither begins nor ends with a delimiter, and
has no two delimiters side by side.  The tokens are the pieces of the text, so tokens that are
not empty and hold no delimiter are found again in their joined text.  Otherwise the error
has the position of the first empty piece. -/
theorem tokenize_inverts_join (input : String) :
    ((∃ tokens, tokenize input = .ok tokens) ↔
      input ≠ "" ∧ ¬[delimiter] <+: input.toList ∧ ¬[delimiter] <:+ input.toList ∧
        ¬[delimiter, delimiter] <:+: input.toList) ∧
    (∀ tokens, tokenize input = .ok tokens ↔
      PiecesOf input tokens ∧ ∀ token ∈ tokens, token ≠ []) ∧
    ∀ error, tokenize input = .error error ↔
      ∃ before after, PiecesOf input (before ++ [] :: after) ∧
        (∀ piece ∈ before, piece ≠ []) ∧ error = .emptyToken before.length := by
  refine ⟨?_, ?_, ?_⟩
  · rw [exists_tokenize_iff, Text.nil_mem_split_iff, not_or, not_or, not_or,
      String.toList_eq_nil_iff]
  · intro tokens
    rw [tokenize_eq_ok_iff, piecesOf_iff, eq_comm]
  · intro error
    simp only [tokenize_eq_error_iff, piecesOf_iff]

/-- Three tokens with brackets and a blank, a text with three empty pieces at its end, and one
that begins with a delimiter. -/
theorem tokenize_inverts_join_runs :
    let tokens : List Token := [['(', 'a'], ['e', 'q'], ['é', ' ', ')']]
    tokenize (spanText tokens) = .ok tokens ∧
      tokenize "a~eq~~~" = .error (.emptyToken 2) ∧
      ¬∃ tokens, tokenize "~a" = .ok tokens := by
  intro tokens
  have hJoined : PiecesOf (spanText tokens) tokens := ⟨by decide, by decide, rfl⟩
  have hRun : PiecesOf "a~eq~~~" ([['a'], ['e', 'q']] ++ [] :: [[], []]) :=
    ⟨by decide, by decide, by decide⟩
  refine ⟨?_, ?_, ?_⟩
  · exact ((tokenize_inverts_join (spanText tokens)).2.1 tokens).mpr ⟨hJoined, by decide⟩
  · exact ((tokenize_inverts_join "a~eq~~~").2.2 _).mpr ⟨_, _, hRun, by decide, rfl⟩
  · rw [(tokenize_inverts_join "~a").1]
    intro hPlaces
    exact hPlaces.2.1 ⟨['a'], by decide⟩

end Filter
end RecordFilter

/-
Texts cut at a separator and put together again.

A text is handled as its list of characters.  `split` cuts at every occurrence
of one separator, so a text with `n` separators has `n + 1` pieces, empty ones
included; `join` puts one separator between neighbouring pieces.  The two are
inverse: `join_split` for every text, `split_join` for every non-empty list of
pieces that do not hold the separator themselves.  `nil_mem_split_iff` says where
a text has empty pieces.
-/

namespace RecordFilter
namespace Text

/-! ### Cutting and joining -/

def extendHead (c : Char) : List (List Char) → List (List Char)
  | [] => [[c]]
  | piece :: pieces => (c :: piece) :: pieces

def split (separator : Char) : List Char → List (List Char)
  | [] => [[]]
  | c :: cs =>
      if c = separator then [] :: split separator cs
      else extendHead c (split separator cs)

def join (separator : Char) : List (List Char) → List Char
  | [] => []
  | [piece] => piece
  | piece :: next :: pieces => piece ++ separator :: join separator (next :: pieces)

/-! ### Cutting and joining are inverse -/

theorem extendHead_ne_nil (c : Char) (pieces : List (List Char)) :
    extendHead c pieces ≠ [] := by
  cases pieces <;> simp [extendHead]

theorem split_ne_nil (separator : Char) (text : List Char) :
    split separator text ≠ [] := by
  cases text with
  | nil => simp [split]
  | cons c cs =>
      unfold split
      split
      · simp
      · exact extendHead_ne_nil c _

theorem join_extendHead (separator c : Char) {pieces : List (List Char)}
    (hPieces : pieces ≠ []) :
    join separator (extendHead c pieces) = c :: join separator pieces := by
  cases pieces with
  | nil => exact absurd rfl hPieces
  | cons piece rest => cases rest <;> simp [extendHead, join]

theorem join_cons {separator : Char} (piece : List Char) {pieces : List (List Char)}
    (hPieces : pieces ≠ []) :
    join separator (piece :: pieces) = piece ++ separator :: join separator pieces := by
  cases pieces with
  | nil => exact absurd rfl hPieces
  | cons next rest => rfl

theorem join_append {separator : Char} {left right : List (List Char)} (hLeft : left ≠ [])
    (hRight : right ≠ []) :
    join separator (left ++ right) = join separator left ++ separator :: join separator right := by
  induction left with
  | nil => exact absurd rfl hLeft
  | cons piece rest ih =>
      cases rest with
      | nil => exact join_cons piece hRight
      | cons next more =>
          have hRest := ih (by simp)
          rw [List.cons_append, join_cons piece (by simp), join_cons piece (by simp), hRest,
            List.append_assoc, List.cons_append]

theorem join_split (separator : Char) (text : List Char) :
    join separator (split separator text) = text := by
  induction text with
  | nil => rfl
  | cons c cs ih =>
      unfold split
      split
      · rename_i hSeparator
        cases hCut : split separator cs with
        | nil => exact absurd hCut (split_ne_nil separator cs)
        | cons piece rest =>
            rw [hCut] at ih
            simp [join, ih, hSeparator]
      · rw [join_extendHead separator c (split_ne_nil separator cs), ih]

theorem split_of_not_mem {separator : Char} {text : List Char}
    (hText : separator ∉ text) : split separator text = [text] := by
  induction text with
  | nil => rfl
  | cons c cs ih =>
      simp only [List.mem_cons, not_or] at hText
      simp [split, Ne.symm hText.1, ih hText.2, extendHead]

theorem split_append_separator {separator : Char} {piece : List Char}
    (hPiece : separator ∉ piece) (text : List Char) :
    split separator (piece ++ separator :: text) = piece :: split separator text := by
  induction piece with
  | nil => simp [split]
  | cons c cs ih =>
      simp only [List.mem_cons, not_or] at hPiece
      simp [split, Ne.symm hPiece.1, ih hPiece.2, extendHead]

theorem extendHead_append (c : Char) {left : List (List Char)} (hLeft : left ≠ [])
    (right : List (List Char)) : extendHead c (left ++ right) = extendHead c left ++ right := by
  cases left with
  | nil => exact absurd rfl hLeft
  | cons piece rest => rfl

theorem split_append (separator : Char) (left right : List Char) :
    split separator (left ++ separator :: right) =
      split separator left ++ split separator right := by
  induction left with
  | nil => simp [split]
  | cons c cs ih =>
      rw [List.cons_append, split, split, ih]
      split
      · rfl
      · exact extendHead_append c (split_ne_nil separator cs) _

/-- Pieces that do not hold the separator are found again after joining. -/
theorem split_join {separator : Char} {pieces : List (List Char)}
    (hPieces : pieces ≠ []) (hFree : ∀ piece ∈ pieces, separator ∉ piece) :
    split separator (join separator pieces) = pieces := by
  induction pieces with
  | nil => exact absurd rfl hPieces
  | cons piece rest ih =>
      have hPiece : separator ∉ piece := hFree piece (by simp)
      cases rest with
      | nil => exact split_of_not_mem hPiece
      | cons next more =>
          rw [join, split_append_separator hPiece,
            ih (by simp) (fun p hp => hFree p (List.mem_cons_of_mem piece hp))]

theorem not_mem_of_mem_split {separator : Char} {text piece : List Char}
    (hPiece : piece ∈ split separator text) : separator ∉ piece := by
  induction text generalizing piece with
  | nil =>
      simp only [split, List.mem_singleton] at hPiece
      simp [hPiece]
  | cons c cs ih =>
      unfold split at hPiece
      split at hPiece
      · rcases List.mem_cons.1 hPiece with hEmpty | hRest
        · simp [hEmpty]
        · exact ih hRest
      · rename_i hOther
        cases hCut : split separator cs with
        | nil => exact absurd hCut (split_ne_nil separator cs)
        | cons first rest =>
            rw [hCut] at hPiece ih
            rcases List.mem_cons.1 hPiece with hHead | hTail
            · have hFirst := @ih first (by simp)
              subst hHead
              simp [hFirst, Ne.symm hOther]
            · exact ih (List.mem_cons_of_mem first hTail)

/-- The pieces of a text are the only ones without the separator that give it when joined. -/
theorem split_eq_iff {separator : Char} {text : List Char} {pieces : List (List Char)} :
    split separator text = pieces ↔
      pieces ≠ [] ∧ (∀ piece ∈ pieces, separator ∉ piece) ∧ join separator pieces = text := by
  constructor
  · intro hSplit
    subst hSplit
    exact ⟨split_ne_nil separator text, fun _ hPiece => not_mem_of_mem_split hPiece,
      join_split separator text⟩
  · intro hPieces
    obtain ⟨hSome, hFree, hJoin⟩ := hPieces
    rw [← hJoin, split_join hSome hFree]

/-! ### Empty pieces -/

theorem nil_mem_split_of_front {separator : Char} {text : List Char}
    (hFront : [separator] <+: text) : [] ∈ split separator text := by
  obtain ⟨rest, hText⟩ := hFront
  rw [← hText, List.singleton_append, split, if_pos rfl]
  exact List.mem_cons_self

theorem nil_mem_split_of_back {separator : Char} {text : List Char}
    (hBack : [separator] <:+ text) : [] ∈ split separator text := by
  obtain ⟨front, hText⟩ := hBack
  rw [← hText, split_append]
  exact List.mem_append_right _ List.mem_cons_self

theorem nil_mem_split_of_inside {separator : Char} {text : List Char}
    (hInside : [separator, separator] <:+: text) : [] ∈ split separator text := by
  obtain ⟨front, rest, hText⟩ := hInside
  have hSplit : split separator text = split separator front ++ [] :: split separator rest := by
    rw [← hText, List.append_assoc, List.cons_append, split_append, List.singleton_append, split,
      if_pos rfl]
  rw [hSplit]
  exact List.mem_append_right _ List.mem_cons_self

/-- A piece is empty where the text begins or ends with the separator, where two separators
are neighbours, and in the empty text. -/
theorem nil_mem_split_iff {separator : Char} {text : List Char} :
    [] ∈ split separator text ↔
      text = [] ∨ [separator] <+: text ∨ [separator] <:+ text ∨
        [separator, separator] <:+: text := by
  constructor
  · intro hEmpty
    obtain ⟨before, after, hPieces⟩ := List.append_of_mem hEmpty
    have hText : text = join separator (before ++ [] :: after) := by
      rw [← hPieces, join_split]
    -- Which of the two sides has pieces tells where the empty piece stands.
    cases before with
    | nil =>
        cases after with
        | nil => exact .inl hText
        | cons next more => exact .inr (.inl ⟨join separator (next :: more), hText.symm⟩)
    | cons first others =>
        rw [join_append (List.cons_ne_nil first others) (List.cons_ne_nil [] after)] at hText
        cases after with
        | nil => exact .inr (.inr (.inl ⟨join separator (first :: others), hText.symm⟩))
        | cons next more =>
            refine .inr (.inr (.inr ⟨join separator (first :: others),
              join separator (next :: more), ?_⟩))
            rw [hText, List.append_assoc]
            rfl
  · intro hPlace
    rcases hPlace with hText | hFront | hBack | hInside
    · rw [hText]
      exact List.mem_cons_self
    · exact nil_mem_split_of_front hFront
    · exact nil_mem_split_of_back hBack
    · exact nil_mem_split_of_inside hInside

end Text
end RecordFilter

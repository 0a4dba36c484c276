/-
What is taken off the ends of a segment.

The characters that a segment counts off at its ends are brackets of the tokens there
(`CutsBrackets`).  Parts of segments keep this, and so does stripping one that stands in
brackets as a whole, so it holds of every segment that is looked at when a range of tokens
is read.  A bracket is one byte long; a token that is cut at bytes is therefore cut between
characters and inside of its bounds.
-/
import Mathlib
import RecordFilter.Proofs.Filter.Descent
import RecordFilter.Text.Bytes

namespace RecordFilter
namespace Text

/-! ### Cutting at bytes -/

/-- The text behind its first `n` bytes.  There is none if the text has not so many, or if
the last of them is in the middle of a character. -/
def behindBytes? : Nat → List Char → Option (List Char)
  | 0, text => some text
  | _ + 1, [] => none
  | n + 1, c :: cs =>
      if c.utf8Size ≤ n + 1 then behindBytes? (n + 1 - c.utf8Size) cs else none

/-- The first `n` bytes of a text, under the same conditions. -/
def frontBytes? : Nat → List Char → Option (List Char)
  | 0, _ => some []
  | _ + 1, [] => none
  | n + 1, c :: cs =>
      if c.utf8Size ≤ n + 1 then (frontBytes? (n + 1 - c.utf8Size) cs).map (List.cons c) else none

theorem length_bytes_cons (c : Char) (cs : List Char) :
    (bytes (c :: cs)).length = c.utf8Size + (bytes cs).length := by
  simp [bytes]

theorem behindBytes?_cons (c : Char) (n : Nat) (cs : List Char) :
    behindBytes? (c.utf8Size + n) (c :: cs) = behindBytes? n cs := by
  obtain ⟨rest, hSize⟩ : ∃ rest, c.utf8Size + n = rest + 1 :=
    ⟨c.utf8Size + n - 1, by have hPositive := c.utf8Size_pos; omega⟩
  rw [hSize, behindBytes?, if_pos (by omega)]
  congr 1
  omega

theorem frontBytes?_cons (c : Char) (n : Nat) (cs : List Char) :
    frontBytes? (c.utf8Size + n) (c :: cs) = (frontBytes? n cs).map (List.cons c) := by
  obtain ⟨rest, hSize⟩ : ∃ rest, c.utf8Size + n = rest + 1 :=
    ⟨c.utf8Size + n - 1, by have hPositive := c.utf8Size_pos; omega⟩
  have hRest : rest + 1 - c.utf8Size = n := by omega
  rw [hSize, frontBytes?, if_pos (by omega), hRest]

theorem behindBytes?_append (front back : List Char) :
    behindBytes? (bytes front).length (front ++ back) = some back := by
  induction front with
  | nil => simp [bytes, behindBytes?]
  | cons c cs ih => rw [length_bytes_cons, List.cons_append, behindBytes?_cons, ih]

theorem frontBytes?_append (front back : List Char) :
    frontBytes? (bytes front).length (front ++ back) = some front := by
  induction front with
  | nil => simp [bytes, frontBytes?]
  | cons c cs ih =>
      rw [length_bytes_cons, List.cons_append, frontBytes?_cons, ih]
      rfl

theorem length_bytes_replicate {c : Char} (hSize : c.utf8Size = 1) (n : Nat) :
    (bytes (List.replicate n c)).length = n := by
  induction n with
  | zero => rfl
  | succ n ih =>
      rw [List.replicate_succ, length_bytes_cons, ih, hSize]
      omega

end Text

namespace Filter

/-! ### Brackets at the ends of a token -/

theorem leadingRun_replicate_append (n : Nat) (token : Token) :
    leadingRun (List.replicate n leftBracket ++ token) = n + leadingRun token := by
  induction n with
  | zero => simp
  | succ n ih =>
      rw [List.replicate_succ, List.cons_append, leadingRun_cons, ih]
      omega

theorem trailingRun_append_replicate (n : Nat) (token : Token) :
    trailingRun (token ++ List.replicate n rightBracket) = n + trailingRun token := by
  induction n with
  | zero => simp
  | succ n ih =>
      rw [List.replicate_succ', ← List.append_assoc, trailingRun_append, ih]
      omega

theorem replicate_append_drop {n : Nat} {token : Token} (hRun : n ≤ leadingRun token) :
    List.replicate n leftBracket ++ token.drop n = token := by
  induction n generalizing token with
  | zero => rfl
  | succ n ih =>
      have hSome : 0 < leadingRun token := by omega
      have hWhole := cons_tail_of_leadingRun hSome
      rw [← hWhole, leadingRun_cons] at hRun
      have hRest := ih (Nat.le_of_succ_le_succ hRun)
      rw [← hWhole, List.drop_succ_cons, List.replicate_succ, List.cons_append, hRest]

theorem take_append_replicate {n : Nat} {token : Token} (hRun : n ≤ trailingRun token) :
    token.take (token.length - n) ++ List.replicate n rightBracket = token := by
  induction n generalizing token with
  | zero => simp
  | succ n ih =>
      have hSome : 0 < trailingRun token := by omega
      have hWhole := dropLast_append_of_trailingRun hSome
      rw [← hWhole, trailingRun_append] at hRun
      have hRest := ih (Nat.le_of_succ_le_succ hRun)
      have hFront : token.take (token.length - (n + 1)) =
          token.dropLast.take (token.dropLast.length - n) := by
        rw [List.dropLast_eq_take, List.take_take, List.length_take]
        congr 1
        omega
      rw [hFront, List.replicate_succ', ← List.append_assoc, hRest, hWhole]

namespace Segment

open Relation (ReflTransGen)

variable {s t level root : Segment} {i j : Nat}

/-! ### Cuts of a segment -/

/-- What a segment takes off its ends are brackets, and nothing is taken off a token that
is both its first and its last one. -/
structure CutsBrackets (s : Segment) : Prop where
  first_le : s.first ≤ s.last
  last_lt : s.last < s.tokens.size
  cutFront_le : s.cutFront ≤ leadingRun (s.tokens.getD s.first [])
  cutBack_le : s.cutBack ≤ trailingRun (s.tokens.getD s.last [])
  several : 0 < s.cutFront ∨ 0 < s.cutBack → s.first < s.last

def frontCutAt (s : Segment) (i : Nat) : Nat := if i = s.first then s.cutFront else 0

def backCutAt (s : Segment) (i : Nat) : Nat := if i = s.last then s.cutBack else 0

theorem token_first (hSeveral : s.first ≠ s.last) :
    s.token s.first = (s.tokens.getD s.first []).drop s.cutFront := by
  simp [token, tokenBehindCut, hSeveral]

theorem token_last (hSeveral : s.first ≠ s.last) :
    s.token s.last =
      (s.tokens.getD s.last []).take ((s.tokens.getD s.last []).length - s.cutBack) := by
  simp [token, tokenBehindCut, hSeveral.symm]

theorem token_of_ne (hFirst : i ≠ s.first) (hLast : i ≠ s.last) :
    s.token i = s.tokens.getD i [] := by
  simp [token, tokenBehindCut, hFirst, hLast]

theorem token_of_uncut (hFront : s.cutFront = 0) (hBack : s.cutBack = 0) (i : Nat) :
    s.token i = s.tokens.getD i [] := by
  simp [token, tokenBehindCut, hFront, hBack]

theorem CutsBrackets.uncut_of_single (hCuts : s.CutsBrackets) (hSame : s.first = s.last) :
    s.cutFront = 0 ∧ s.cutBack = 0 := by
  have hNot : ¬(0 < s.cutFront ∨ 0 < s.cutBack) :=
    fun hCut => Nat.ne_of_lt (hCuts.several hCut) hSame
  omega

theorem CutsBrackets.token_between (hCuts : s.CutsBrackets) (i : Nat) :
    List.replicate (s.frontCutAt i) leftBracket ++ s.token i ++
      List.replicate (s.backCutAt i) rightBracket = s.tokens.getD i [] := by
  unfold frontCutAt backCutAt
  by_cases hSeveral : s.first = s.last
  · obtain ⟨hFront, hBack⟩ := hCuts.uncut_of_single hSeveral
    simp [token_of_uncut hFront hBack, hFront, hBack]
  · by_cases hFirst : i = s.first
    · subst hFirst
      rw [if_pos rfl, if_neg hSeveral, token_first hSeveral, List.replicate_zero,
        List.append_nil]
      exact replicate_append_drop hCuts.cutFront_le
    · by_cases hLast : i = s.last
      · subst hLast
        rw [if_neg hFirst, if_pos rfl, token_last hSeveral, List.replicate_zero,
          List.nil_append]
        exact take_append_replicate hCuts.cutBack_le
      · rw [if_neg hFirst, if_neg hLast, token_of_ne hFirst hLast, List.replicate_zero,
          List.replicate_zero, List.nil_append, List.append_nil]

/-! ### What keeps cuts to brackets -/

theorem CutsBrackets.sub (hCuts : s.CutsBrackets) (hSeveral : i < j) (hLast : j ≤ s.last) :
    (s.sub i j).CutsBrackets where
  first_le := Nat.le_of_lt hSeveral
  last_lt := Nat.lt_of_le_of_lt hLast hCuts.last_lt
  cutFront_le := by
    change (if i = s.first then s.cutFront else 0) ≤ leadingRun (s.tokens.getD i [])
    split
    · rename_i hSame
      rw [hSame]
      exact hCuts.cutFront_le
    · exact Nat.zero_le _
  cutBack_le := by
    change (if j = s.last then s.cutBack else 0) ≤ trailingRun (s.tokens.getD j [])
    split
    · rename_i hSame
      rw [hSame]
      exact hCuts.cutBack_le
    · exact Nat.zero_le _
  several := fun _ => hSeveral

theorem CutsBrackets.strip (hCuts : s.CutsBrackets) (hSeveral : s.first < s.last)
    (hOpened : 0 < s.openedAt s.first) (hClosed : 0 < s.closedAt s.last) :
    s.strip.CutsBrackets where
  first_le := hCuts.first_le
  last_lt := hCuts.last_lt
  cutFront_le := by
    have hWhole := replicate_append_drop hCuts.cutFront_le
    rw [openedAt, token_first (Nat.ne_of_lt hSeveral)] at hOpened
    change s.cutFront + 1 ≤ leadingRun (s.tokens.getD s.first [])
    rw [← hWhole, leadingRun_replicate_append]
    omega
  cutBack_le := by
    have hWhole := take_append_replicate hCuts.cutBack_le
    rw [closedAt, token_last (Nat.ne_of_lt hSeveral)] at hClosed
    change s.cutBack + 1 ≤ trailingRun (s.tokens.getD s.last [])
    rw [← hWhole, trailingRun_append_replicate]
    omega
  several := fun _ => hSeveral

theorem CutsBrackets.of_level (hCuts : s.CutsBrackets) (hLevel : s.level = .ok level) :
    level.CutsBrackets ∧ level.tokens = s.tokens := by
  obtain ⟨hSize, ⟨hWraps, rfl⟩ | ⟨-, rfl⟩⟩ := level_cases hLevel
  · have hSlot := add_two_le_of_size hSize
    obtain ⟨hOpened, hClosed⟩ := ends_of_wrapsWhole hWraps
    exact ⟨hCuts.strip (by omega) hOpened hClosed, rfl⟩
  · exact ⟨hCuts, rfl⟩

theorem CutsBrackets.of_descends (hCuts : s.CutsBrackets) (hInside : Descends s t) :
    t.CutsBrackets ∧ t.tokens = s.tokens := by
  obtain ⟨hLevel, hScan, hMore, hOpened, hClosing⟩ := hInside
  obtain ⟨hLevelCuts, hTokens⟩ := hCuts.of_level hLevel
  obtain ⟨⟨slots, hSlots⟩, hLast⟩ := closingFrom_bounds hClosing
  exact ⟨hLevelCuts.sub (by omega) hLast, hTokens⟩

theorem CutsBrackets.of_entered (hCuts : root.CutsBrackets) (hPath : ReflTransGen Descends root s) :
    s.CutsBrackets ∧ s.tokens = root.tokens := by
  induction hPath with
  | refl => exact ⟨hCuts, rfl⟩
  | tail hPath hInside ih =>
      obtain ⟨hOuter, hOuterTokens⟩ := ih
      obtain ⟨hInner, hInnerTokens⟩ := hOuter.of_descends hInside
      exact ⟨hInner, hInnerTokens.trans hOuterTokens⟩

theorem CutsBrackets.of_looksAt (hCuts : root.CutsBrackets) (hLooks : root.LooksAt s) :
    s.CutsBrackets ∧ s.tokens = root.tokens := by
  induction hLooks with
  | entered hPath => exact hCuts.of_entered hPath
  | level hPath hLevel =>
      obtain ⟨hSegment, hTokens⟩ := hCuts.of_entered hPath
      obtain ⟨hLevelCuts, hLevelTokens⟩ := hSegment.of_level hLevel
      exact ⟨hLevelCuts, hLevelTokens.trans hTokens⟩
  | part hWhole hFirst hSlot hLast ih => exact ⟨ih.1.sub (by omega) hLast, ih.2⟩

theorem cutsBrackets_range {tokens : Array Token} {start stop : Nat} (hOrder : start ≤ stop)
    (hStop : stop < tokens.size) :
    CutsBrackets { tokens := tokens, first := start, last := stop } where
  first_le := hOrder
  last_lt := hStop
  cutFront_le := Nat.zero_le _
  cutBack_le := Nat.zero_le _
  several := by rintro (hCut | hCut) <;> cases hCut

/-! ### Cutting tokens at bytes -/

/-- The token at a position, cut at bytes.  There is none if the array ends before, if more is
to be cut off than there is, or if a cut is in the middle of a character. -/
def sliced? (s : Segment) (i : Nat) : Option Token :=
  match s.tokens[i]? with
  | none => none
  | some whole =>
      match Text.behindBytes? (s.frontCutAt i) whole with
      | none => none
      | some behind =>
          let size := (Text.bytes behind).length
          if s.backCutAt i ≤ size then Text.frontBytes? (size - s.backCutAt i) behind else none

theorem CutsBrackets.sliced?_eq (hCuts : s.CutsBrackets) (hLast : i ≤ s.last) :
    s.sliced? i = some (s.token i) := by
  have hInside : i < s.tokens.size := Nat.lt_of_le_of_lt hLast hCuts.last_lt
  have hWhole : s.tokens[i]? = some (List.replicate (s.frontCutAt i) leftBracket ++
      (s.token i ++ List.replicate (s.backCutAt i) rightBracket)) := by
    rw [← List.append_assoc, hCuts.token_between i]
    simp [hInside]
  have hFront := Text.behindBytes?_append (List.replicate (s.frontCutAt i) leftBracket)
    (s.token i ++ List.replicate (s.backCutAt i) rightBracket)
  rw [Text.length_bytes_replicate rfl] at hFront
  have hSize : (Text.bytes (s.token i ++ List.replicate (s.backCutAt i) rightBracket)).length =
      (Text.bytes (s.token i)).length + s.backCutAt i := by
    rw [Text.bytes_append, List.length_append, Text.length_bytes_replicate rfl]
  rw [sliced?, hWhole]
  simp only [hFront]
  rw [hSize, if_pos (Nat.le_add_left _ _), Nat.add_sub_cancel]
  exact Text.frontBytes?_append _ _

/-! ### Reading a range -/

/-- In every segment that is looked at when a range of tokens is read, the positions are
positions of the array, and only brackets are taken off, at most those that the tokens at its
ends begin and end with, and none off a token alone.  So cutting tokens at bytes always
succeeds and shows what the segment does, and a token differs from what is shown of it in
these brackets only. -/
theorem cutsBrackets_of_looksAt {tokens : Array Token} {start stop : Nat} (hOrder : start ≤ stop)
    (hStop : stop < tokens.size)
    (hLooks : LooksAt { tokens := tokens, first := start, last := stop } s) :
    s.tokens = tokens ∧ s.first ≤ s.last ∧ s.last < tokens.size ∧
      s.cutFront ≤ leadingRun (tokens.getD s.first []) ∧
      s.cutBack ≤ trailingRun (tokens.getD s.last []) ∧
      (0 < s.cutFront ∨ 0 < s.cutBack → s.first < s.last) ∧
      ∀ i, s.first ≤ i → i ≤ s.last →
        s.sliced? i = some (s.token i) ∧
        tokens[i]? = some (List.replicate (if i = s.first then s.cutFront else 0) leftBracket ++
          s.token i ++ List.replicate (if i = s.last then s.cutBack else 0) rightBracket) := by
  obtain ⟨hCuts, rfl⟩ := (cutsBrackets_range hOrder hStop).of_looksAt hLooks
  refine ⟨rfl, hCuts.first_le, hCuts.last_lt, hCuts.cutFront_le, hCuts.cutBack_le,
    hCuts.several, ?_⟩
  intro i hFirst hLast
  refine ⟨hCuts.sliced?_eq hLast, ?_⟩
  have hInside : i < s.tokens.size := Nat.lt_of_le_of_lt hLast hCuts.last_lt
  have hWhole := hCuts.token_between i
  unfold frontCutAt backCutAt at hWhole
  rw [hWhole]
  simp [hInside]

/-- The first token of a level in brackets gives one bracket to the level around it and one
to itself; what is left of it takes two bytes. -/
theorem cutsBrackets_of_looksAt_shared :
    let tokens : Array Token :=
      #[['(', '(', 'é'], ['e', 'q'], ['1', ')'], ['o', 'r'], ['b'], ['e', 'q'], ['ß', ')']]
    let root : Segment := { tokens := tokens, first := 0, last := 6 }
    let inner : Segment := { tokens := tokens, first := 0, last := 2, cutFront := 2, cutBack := 1 }
    6 < tokens.size ∧ root.LooksAt inner ∧ inner.cutFront ≤ leadingRun ['(', '(', 'é'] ∧
      inner.sliced? 0 = some ['é'] ∧ inner.sliced? 2 = some ['1'] := by
  intro tokens root inner
  have hStop : 6 < tokens.size := by decide
  have hLevel : root.level = .ok root.strip := by cbv
  have hClosing : root.strip.closing 0 = .ok 2 := by cbv
  have hInside : Descends root (root.strip.sub 0 2) :=
    .inside hLevel .first (by decide) (by decide) hClosing
  have hLooks : root.LooksAt inner := .level (.single hInside) hInside.level_eq
  obtain ⟨-, -, -, hFront, -, -, hTokens⟩ := cutsBrackets_of_looksAt (Nat.zero_le 6) hStop hLooks
  have hField := (hTokens 0 (by decide) (by decide)).1
  have hValue := (hTokens 2 (by decide) (by decide)).1
  exact ⟨hStop, hLooks, hFront, hField, hValue⟩

end Segment
end Filter
end RecordFilter

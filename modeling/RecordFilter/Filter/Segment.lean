/-
Segments of the tokens of a filter.

All tokens of a text stay in one array, and a segment is a range of positions in it, both
ends included.  Brackets that are taken off the two ends of a segment are counted and not
removed from the array, so that a segment inside another one shares its tokens.

`closing` finds the position at which the brackets at a position are closed, and `level`
takes one pair of brackets off a segment that stands in brackets as a whole.  The segment
between a bracket and the position that closes it is always one (`level_of_closing`), which
is why reading ends: what stands inside brackets is less to read than what stands around
them (`unread_strip_lt`).
-/
import RecordFilter.Filter.Token

namespace RecordFilter
namespace Filter

/-- The tokens from `first` to `last`, with `cutFront` characters taken off the first one
and `cutBack` off the last one. -/
structure Segment where
  tokens : Array Token
  first : Nat
  last : Nat
  cutFront : Nat := 0
  cutBack : Nat := 0
deriving Repr, Inhabited

namespace Segment

/-! ### The tokens of a segment -/

def size (s : Segment) : Nat := s.last + 1 - s.first

def tokenBehindCut (s : Segment) (i : Nat) : Token :=
  if i = s.first then (s.tokens.getD i []).drop s.cutFront else s.tokens.getD i []

def token (s : Segment) (i : Nat) : Token :=
  if i = s.last then (s.tokenBehindCut i).take ((s.tokenBehindCut i).length - s.cutBack)
  else s.tokenBehindCut i

def text (s : Segment) : String :=
  spanText ((List.range' s.first s.size).map s.token)

/-- The segment of some positions of a segment; what is taken off an end that both have
stays off. -/
def sub (s : Segment) (i j : Nat) : Segment where
  tokens := s.tokens
  first := i
  last := j
  cutFront := if i = s.first then s.cutFront else 0
  cutBack := if j = s.last then s.cutBack else 0

def strip (s : Segment) : Segment :=
  { s with cutFront := s.cutFront + 1, cutBack := s.cutBack + 1 }

def openedAt (s : Segment) (i : Nat) : Nat := leadingRun (s.token i)

def closedAt (s : Segment) (i : Nat) : Nat := trailingRun (s.token i)

theorem token_sub {s : Segment} {i j k : Nat} (hFirst : s.first ≤ i) (hLast : j ≤ s.last)
    (hFrom : i ≤ k) (hTo : k ≤ j) : (s.sub i j).token k = s.token k := by
  have hBehindCut : (s.sub i j).tokenBehindCut k = s.tokenBehindCut k := by
    by_cases hFront : k = i
    · subst hFront
      by_cases hSame : k = s.first <;> simp [tokenBehindCut, sub, hSame]
    · have hOther : k ≠ s.first := by omega
      simp [tokenBehindCut, sub, hFront, hOther]
  rw [token, token, hBehindCut]
  change (if k = j then List.take (_ - if j = s.last then s.cutBack else 0) _ else _) = _
  by_cases hBack : k = j
  · subst hBack
    by_cases hSame : k = s.last
    · rw [if_pos rfl, if_pos hSame, if_pos hSame]
    · rw [if_pos rfl, if_neg hSame, if_neg hSame, Nat.sub_zero, List.take_length]
  · have hOther : k ≠ s.last := by omega
    rw [if_neg hBack, if_neg hOther]

theorem token_strip_first {s : Segment} (hSeveral : s.first ≠ s.last) :
    s.strip.token s.first = (s.token s.first).tail := by
  simp [token, tokenBehindCut, strip, hSeveral, List.tail_drop]

theorem token_strip_last {s : Segment} (hSeveral : s.first ≠ s.last) :
    s.strip.token s.last = (s.token s.last).dropLast := by
  have hBehindCut : s.strip.tokenBehindCut s.last = s.tokenBehindCut s.last := by
    simp [tokenBehindCut, strip, hSeveral.symm]
  have hStripped : s.strip.token s.last = (s.tokenBehindCut s.last).take
      ((s.tokenBehindCut s.last).length - (s.cutBack + 1)) := by
    rw [token, hBehindCut]
    exact if_pos rfl
  rw [hStripped, token, if_pos rfl, List.dropLast_eq_take, List.length_take, List.take_take]
  congr 1
  omega

theorem token_strip_of_ne {s : Segment} {i : Nat} (hFirst : i ≠ s.first) (hLast : i ≠ s.last) :
    s.strip.token i = s.token i := by
  simp [token, tokenBehindCut, strip, hFirst, hLast]

/-! ### What is left to read -/

def unread (s : Segment) (i : Nat) : Nat :=
  if i ≤ s.last then (s.token i).length + 1 + s.unread (i + 1) else 0
termination_by s.last + 1 - i

theorem unread_of_le {s : Segment} {i : Nat} (hInside : i ≤ s.last) :
    s.unread i = (s.token i).length + 1 + s.unread (i + 1) := by
  rw [unread, if_pos hInside]

theorem unread_of_lt {s : Segment} {i : Nat} (hBehind : s.last < i) : s.unread i = 0 := by
  rw [unread, if_neg (Nat.not_le_of_lt hBehind)]

theorem unread_antitone {s : Segment} {i j : Nat} (hLater : i ≤ j) : s.unread j ≤ s.unread i := by
  fun_induction unread s i with
  | case1 i hInside ih =>
      rcases Nat.eq_or_lt_of_le hLater with rfl | hNext
      · exact Nat.le_of_eq (unread_of_le hInside)
      · have hRest := ih hNext
        omega
  | case2 i hBehind => exact Nat.le_of_eq (unread_of_lt (by omega))

theorem unread_lt {s : Segment} {i j : Nat} (hInside : i ≤ s.last) (hLater : i < j) :
    s.unread j < s.unread i := by
  have hRest : s.unread j ≤ s.unread (i + 1) := unread_antitone hLater
  rw [unread_of_le hInside]
  omega

theorem unread_sub_le {s : Segment} {i j k : Nat} (hFirst : s.first ≤ i) (hLast : j ≤ s.last)
    (hFrom : i ≤ k) : (s.sub i j).unread k ≤ s.unread k := by
  fun_induction unread s k with
  | case1 k hInside ih =>
      rcases Nat.lt_or_ge j k with hBehind | hShown
      · rw [unread_of_lt (s := s.sub i j) hBehind]
        exact Nat.zero_le _
      · have hRest := ih (by omega)
        rw [unread_of_le (s := s.sub i j) hShown, token_sub hFirst hLast hFrom hShown]
        omega
  | case2 k hBehind =>
      have hOutside : j < k := by omega
      exact Nat.le_of_eq (unread_of_lt (s := s.sub i j) hOutside)

theorem length_token_strip_le {s : Segment} (hSeveral : s.first ≠ s.last) (i : Nat) :
    (s.strip.token i).length ≤ (s.token i).length := by
  by_cases hFirst : i = s.first
  · subst hFirst
    rw [token_strip_first hSeveral, List.length_tail]
    omega
  · by_cases hLast : i = s.last
    · subst hLast
      rw [token_strip_last hSeveral, List.length_dropLast]
      omega
    · exact Nat.le_of_eq (congrArg List.length (token_strip_of_ne hFirst hLast))

theorem unread_strip_le {s : Segment} (hSeveral : s.first ≠ s.last) (i : Nat) :
    s.strip.unread i ≤ s.unread i := by
  fun_induction unread s i with
  | case1 i hInside ih =>
      have hToken := length_token_strip_le hSeveral i
      rw [unread_of_le (s := s.strip) hInside]
      omega
  | case2 i hBehind =>
      exact Nat.le_of_eq (unread_of_lt (s := s.strip) (Nat.lt_of_not_le hBehind))

theorem unread_strip_lt {s : Segment} (hSeveral : s.first < s.last)
    (hOpened : s.token s.first ≠ []) : s.strip.unread s.first < s.unread s.first := by
  have hOther := Nat.ne_of_lt hSeveral
  have hRest := unread_strip_le hOther (s.first + 1)
  have hPositive := List.length_pos_iff.mpr hOpened
  rw [unread_of_le (s := s.strip) (Nat.le_of_lt hSeveral), unread_of_le (Nat.le_of_lt hSeveral),
    token_strip_first hOther, List.length_tail]
  omega

/-! ### Where a bracket closes -/

/-- Follows the brackets from a field at position `i` on, of which `left` have been opened
and `right` closed since position `opening`, to the value at which all are closed. -/
def closingFrom (s : Segment) (opening left right i : Nat) : Except GrammarError Nat :=
  if i + 2 ≤ s.last then
    if left + s.openedAt i < right + s.closedAt (i + 2) then
      .error (.unbalancedBrackets (s.sub opening (i + 2)).text)
    else if left + s.openedAt i = right + s.closedAt (i + 2) then .ok (i + 2)
    else s.closingFrom opening (left + s.openedAt i) (right + s.closedAt (i + 2)) (i + 4)
  else .error (.unbalancedBrackets (s.sub opening s.last).text)
termination_by s.last - i

def closing (s : Segment) (i : Nat) : Except GrammarError Nat := s.closingFrom i 0 0 i

def wrapsWhole (s : Segment) : Except GrammarError Bool :=
  if 0 < s.openedAt s.first ∧ 0 < s.closedAt s.last then
    match s.closing s.first with
    | .error error => .error error
    | .ok j => .ok (j == s.last)
  else .ok false

/-- The segment without the brackets around all of it, if there are any.  Its number of
tokens is checked before. -/
def level (s : Segment) : Except GrammarError Segment :=
  if s.size % 4 = 3 then
    match s.wrapsWhole with
    | .error error => .error error
    | .ok true => .ok s.strip
    | .ok false => .ok s
  else .error (.tokenCount s.text s.size)

variable {s : Segment} {opening left right i j : Nat}

theorem closingFrom_bounds (hClosing : s.closingFrom opening left right i = .ok j) :
    (∃ slots, j = i + 2 + 4 * slots) ∧ j ≤ s.last := by
  fun_induction closingFrom s opening left right i with
  | case1 | case4 => cases hClosing
  | case2 left right i hEnd hOver hEqual =>
      cases hClosing
      exact ⟨⟨0, rfl⟩, hEnd⟩
  | case3 left right i hEnd hOver hEqual ih =>
      obtain ⟨⟨slots, hSlots⟩, hLast⟩ := ih hClosing
      exact ⟨⟨slots + 1, by omega⟩, hLast⟩

theorem closedAt_of_closingFrom (hClosing : s.closingFrom opening left right i = .ok j)
    (hOpen : right < left + s.openedAt i) : 0 < s.closedAt j := by
  fun_induction closingFrom s opening left right i with
  | case1 | case4 => cases hClosing
  | case2 left right i hEnd hOver hEqual =>
      cases hClosing
      omega
  | case3 left right i hEnd hOver hEqual ih =>
      exact ih hClosing (by omega)

/-- Where brackets are closed does not depend on what stands behind that position or in
front of the first one. -/
theorem closingFrom_sub {opening' m : Nat}
    (hClosing : s.closingFrom opening left right i = .ok j) (hFirst : s.first ≤ m)
    (hFrom : m ≤ i) : (s.sub m j).closingFrom opening' left right i = .ok j := by
  obtain ⟨-, hLast⟩ := closingFrom_bounds hClosing
  fun_induction closingFrom s opening left right i with
  | case1 | case4 => cases hClosing
  | case2 left right i hEnd hOver hEqual =>
      cases hClosing
      have hField := token_sub hFirst hLast hFrom (by omega)
      have hValue := token_sub hFirst hLast (k := i + 2) (by omega) (by omega)
      rw [closingFrom, openedAt, closedAt, hField, hValue, if_pos (by exact Nat.le_refl _)]
      exact (if_neg hOver).trans (if_pos hEqual)
  | case3 left right i hEnd hOver hEqual ih =>
      obtain ⟨⟨slots, hSlots⟩, -⟩ := closingFrom_bounds hClosing
      have hField := token_sub hFirst hLast hFrom (by omega)
      have hValue := token_sub hFirst hLast (k := i + 2) (by omega) (by omega)
      have hRest := ih hClosing (by omega)
      rw [closingFrom, openedAt, closedAt, hField, hValue, if_pos (by change i + 2 ≤ j; omega)]
      exact ((if_neg hOver).trans (if_neg hEqual)).trans hRest

theorem wrapsWhole_of_closing (hFirst : s.first ≤ i) (hOpened : 0 < s.openedAt i)
    (hClosing : s.closing i = .ok j) : (s.sub i j).wrapsWhole = .ok true := by
  obtain ⟨⟨slots, hSlots⟩, hLast⟩ := closingFrom_bounds hClosing
  have hClosed : 0 < s.closedAt j := closedAt_of_closingFrom hClosing (by omega)
  have hInner : (s.sub i j).closing i = .ok j :=
    closingFrom_sub hClosing hFirst (Nat.le_refl i)
  have hField : (s.sub i j).token i = s.token i :=
    token_sub hFirst hLast (Nat.le_refl i) (by omega)
  have hValue : (s.sub i j).token j = s.token j :=
    token_sub hFirst hLast (by omega) (Nat.le_refl j)
  rw [openedAt, ← hField] at hOpened
  rw [closedAt, ← hValue] at hClosed
  unfold wrapsWhole
  rw [if_pos ⟨hOpened, hClosed⟩]
  change (match (s.sub i j).closing i with
    | .error error => Except.error error
    | .ok found => .ok (found == j)) = _
  rw [hInner]
  exact congrArg Except.ok (beq_self_eq_true j)

theorem level_of_closing (hFirst : s.first ≤ i) (hOpened : 0 < s.openedAt i)
    (hClosing : s.closing i = .ok j) : (s.sub i j).level = .ok (s.sub i j).strip := by
  obtain ⟨⟨slots, hSlots⟩, -⟩ := closingFrom_bounds hClosing
  have hSize : (s.sub i j).size % 4 = 3 := by
    change (j + 1 - i) % 4 = 3
    omega
  rw [level, if_pos hSize, wrapsWhole_of_closing hFirst hOpened hClosing]

/-! ### Comparisons and connectives -/

/-- The comparison that the three tokens from a position on denote.  Brackets that are left
at the end of its value were never opened. -/
def leaf (s : Segment) (i : Nat) : Except GrammarError Filter :=
  if s.token i = [] ∨ s.token (i + 1) = [] ∨ s.token (i + 2) = [] then
    .error (.emptyCondition (s.sub i (i + 2)).text)
  else if 0 < s.closedAt (i + 2) then
    .error (.unbalancedBrackets (s.sub i (i + 2)).text)
  else
    .ok (.leaf (String.ofList (s.token i)) (String.ofList (s.token (i + 1)))
      (.text (String.ofList (s.token (i + 2)))))

/-- The connective of a level behind the token at a position, if there is one: the first one
fixes it, and each further one has to agree. -/
def logicAt (s : Segment) (fixed : Option Logic) (i : Nat) :
    Except GrammarError (Option Logic) :=
  if i ≤ s.last then
    match agree? fixed (s.token i) with
    | none => .error (.mixedLogic (String.ofList (s.token i)) s.text)
    | some logic => .ok (some logic)
  else .ok fixed

end Segment
end Filter
end RecordFilter

/-
How deep levels are read inside of one another.

What stands inside brackets opens fewer brackets than what stands around them, so the fields
of a range bound how deep it is read (`Descends.levelOpenings_lt`).  `readWithin` is the reader
with bounds on the rounds of its loops and on the levels that are open at once: where a
bound is reached it gives up, and nothing else makes it end.  No range of tokens reaches the
bounds that its size and its fields give (`parseTokens_ends`).
-/
import Mathlib
import RecordFilter.Proofs.Filter.Cuts

namespace RecordFilter
namespace Filter

theorem leadingRun_le_append (front back : Token) :
    leadingRun front ≤ leadingRun (front ++ back) := by
  induction front with
  | nil => exact Nat.zero_le _
  | cons c cs ih =>
      by_cases hBracket : c = leftBracket
      · subst hBracket
        rw [List.cons_append, leadingRun_cons, leadingRun_cons]
        exact Nat.succ_le_succ ih
      · simp [leadingRun, hBracket]

theorem leadingRun_dropLast_le (token : Token) : leadingRun token.dropLast ≤ leadingRun token := by
  rcases List.eq_nil_or_concat token with rfl | ⟨front, c, rfl⟩
  · exact Nat.le_refl _
  · rw [List.concat_eq_append, List.dropLast_concat]
    exact leadingRun_le_append front [c]

namespace Segment

open Relation (TransGen)

variable {s t u level : Segment} {logic : Option Logic} {i j k rounds : Nat}

/-! ### Brackets that are left to open -/

def openings (s : Segment) (i : Nat) : Nat :=
  if i ≤ s.last then s.openedAt i + s.openings (i + 4) else 0
termination_by s.last + 1 - i

theorem openings_of_le (hInside : i ≤ s.last) :
    s.openings i = s.openedAt i + s.openings (i + 4) := by
  rw [openings, if_pos hInside]

theorem openings_of_lt (hBehind : s.last < i) : s.openings i = 0 := by
  rw [openings, if_neg (Nat.not_le_of_lt hBehind)]

theorem openings_add_le (s : Segment) (i slots : Nat) :
    s.openings (i + 4 * slots) ≤ s.openings i := by
  induction slots with
  | zero => exact Nat.le_refl _
  | succ slots ih =>
      refine Nat.le_trans ?_ ih
      rcases Nat.lt_or_ge s.last (i + 4 * slots) with hBehind | hInside
      · rw [openings_of_lt (i := i + 4 * (slots + 1)) (by omega)]
        exact Nat.zero_le _
      · rw [openings_of_le hInside]
        exact Nat.le_add_left _ _

theorem openings_sub_le (hFirst : s.first ≤ i) (hLast : j ≤ s.last) (hFrom : i ≤ k) :
    (s.sub i j).openings k ≤ s.openings k := by
  fun_induction openings s k with
  | case1 k hInside ih =>
      rcases Nat.lt_or_ge j k with hBehind | hShown
      · rw [openings_of_lt (s := s.sub i j) hBehind]
        exact Nat.zero_le _
      · have hRest := ih (by omega)
        rw [openings_of_le (s := s.sub i j) hShown, openedAt, token_sub hFirst hLast hFrom hShown]
        exact Nat.add_le_add_left hRest _
  | case2 k hBehind =>
      have hOutside : j < k := by omega
      exact Nat.le_of_eq (openings_of_lt (s := s.sub i j) hOutside)

theorem openedAt_strip_first (hSeveral : s.first ≠ s.last) (hOpened : 0 < s.openedAt s.first) :
    s.strip.openedAt s.first + 1 = s.openedAt s.first := by
  have hWhole := cons_tail_of_leadingRun hOpened
  rw [openedAt, openedAt, token_strip_first hSeveral, ← leadingRun_cons, hWhole]

theorem openedAt_strip_le (hSeveral : s.first ≠ s.last) (hOpened : 0 < s.openedAt s.first)
    (i : Nat) : s.strip.openedAt i ≤ s.openedAt i := by
  by_cases hFirst : i = s.first
  · subst hFirst
    exact Nat.le_of_succ_le (Nat.le_of_eq (openedAt_strip_first hSeveral hOpened))
  · by_cases hLast : i = s.last
    · subst hLast
      rw [openedAt, openedAt, token_strip_last hSeveral]
      exact leadingRun_dropLast_le _
    · exact Nat.le_of_eq (congrArg leadingRun (token_strip_of_ne hFirst hLast))

theorem openings_strip_le (hSeveral : s.first ≠ s.last) (hOpened : 0 < s.openedAt s.first)
    (i : Nat) : s.strip.openings i ≤ s.openings i := by
  fun_induction openings s i with
  | case1 i hInside ih =>
      rw [openings_of_le (s := s.strip) hInside]
      exact Nat.add_le_add (openedAt_strip_le hSeveral hOpened i) ih
  | case2 i hBehind =>
      exact Nat.le_of_eq (openings_of_lt (s := s.strip) (Nat.lt_of_not_le hBehind))

theorem openings_strip_lt (hSeveral : s.first < s.last) (hOpened : 0 < s.openedAt s.first) :
    s.strip.openings s.first < s.openings s.first := by
  have hOther := Nat.ne_of_lt hSeveral
  have hFirst := openedAt_strip_first hOther hOpened
  have hRest := openings_strip_le hOther hOpened (s.first + 4)
  rw [openings_of_le (s := s.strip) (Nat.le_of_lt hSeveral), openings_of_le (Nat.le_of_lt hSeveral)]
  omega

def levelOpenings (s : Segment) : Nat :=
  match s.level with
  | .error _ => 0
  | .ok level => level.openings level.first

theorem levelOpenings_eq (hLevel : s.level = .ok level) :
    s.levelOpenings = level.openings level.first := by
  rw [levelOpenings, hLevel]

theorem levelOpenings_le (s : Segment) : s.levelOpenings ≤ s.openings s.first := by
  cases hLevel : s.level with
  | error error =>
      rw [levelOpenings, hLevel]
      exact Nat.zero_le _
  | ok level =>
      rw [levelOpenings_eq hLevel]
      obtain ⟨hSize, ⟨hWraps, rfl⟩ | ⟨-, rfl⟩⟩ := level_cases hLevel
      · have hSlot := add_two_le_of_size hSize
        exact openings_strip_le (by omega) (ends_of_wrapsWhole hWraps).1 s.first
      · exact Nat.le_refl _

theorem Descends.levelOpenings_lt (hInside : Descends s t) : t.levelOpenings < s.levelOpenings := by
  have hOpened := (ends_of_wrapsWhole hInside.wrapsWhole).1
  have hSlot := add_two_le_of_size hInside.size_mod
  have hStrip := openings_strip_lt (s := t) (by omega) hOpened
  have hInner := levelOpenings_eq hInside.level_eq
  obtain ⟨hLevel, hScan, hMore, -, hClosing⟩ := hInside
  rename_i level logic i j
  obtain ⟨-, hLast⟩ := closingFrom_bounds hClosing
  obtain ⟨slots, rfl⟩ := hScan.exists_slots
  have hSub := openings_sub_le (Nat.le_add_right level.first (4 * slots)) hLast (Nat.le_refl _)
  have hFront := openings_add_le level level.first slots
  rw [hInner, levelOpenings_eq hLevel]
  exact Nat.lt_of_lt_of_le hStrip (Nat.le_trans hSub hFront)

theorem wellFounded_descends : WellFounded fun t s : Segment => Descends s t :=
  Subrelation.wf (fun {_ _} hInside => hInside.levelOpenings_lt)
    (InvImage.wf levelOpenings Nat.lt_wfRel.wf)

theorem openings_eq_sum (s : Segment) (i : Nat) :
    s.openings i =
      ((List.range ((s.last + 4 - i) / 4)).map fun k => s.openedAt (i + 4 * k)).sum := by
  fun_induction openings s i with
  | case1 i hInside ih =>
      have hCount : (s.last + 4 - i) / 4 = (s.last + 4 - (i + 4)) / 4 + 1 := by omega
      rw [hCount, List.range_succ_eq_map, List.map_cons, List.sum_cons, List.map_map, ih]
      congr 2
      apply List.map_congr_left
      intro k _
      change s.openedAt (i + 4 + 4 * k) = s.openedAt (i + 4 * (k + 1))
      congr 1
      omega
  | case2 i hBehind =>
      have hNone : (s.last + 4 - i) / 4 = 0 := by omega
      rw [hNone]
      rfl

/-! ### Reading within bounds -/

/-- `closingFrom` in so many rounds. -/
def closingWithin (s : Segment) (opening : Nat) :
    Nat → Nat → Nat → Nat → Option (Except GrammarError Nat)
  | 0, _, _, _ => none
  | rounds + 1, left, right, i =>
      if i + 2 ≤ s.last then
        if left + s.openedAt i < right + s.closedAt (i + 2) then
          some (.error (.unbalancedBrackets (s.sub opening (i + 2)).text))
        else if left + s.openedAt i = right + s.closedAt (i + 2) then some (.ok (i + 2))
        else
          s.closingWithin opening rounds (left + s.openedAt i) (right + s.closedAt (i + 2)) (i + 4)
      else some (.error (.unbalancedBrackets (s.sub opening s.last).text))

def wrapsWholeWithin (rounds : Nat) (s : Segment) : Option (Except GrammarError Bool) :=
  if 0 < s.openedAt s.first ∧ 0 < s.closedAt s.last then
    match s.closingWithin s.first rounds 0 0 s.first with
    | none => none
    | some (.error error) => some (.error error)
    | some (.ok j) => some (.ok (j == s.last))
  else some (.ok false)

def levelWithin (rounds : Nat) (s : Segment) : Option (Except GrammarError Segment) :=
  if s.size % 4 = 3 then
    match s.wrapsWholeWithin rounds with
    | none => none
    | some (.error error) => some (.error error)
    | some (.ok true) => some (.ok s.strip)
    | some (.ok false) => some (.ok s)
  else some (.error (.tokenCount s.text s.size))

def itemEndWithin (rounds : Nat) (s : Segment) (i : Nat) : Option (Except GrammarError Nat) :=
  if 0 < s.openedAt i then s.closingWithin i rounds 0 0 i else some (.ok (i + 2))

/-- The tree of the item from position `i` to position `j`; `inside` reads what stands in
brackets. -/
def itemWithin (inside : Segment → Option (Except GrammarError Filter)) (s : Segment)
    (i j : Nat) : Option (Except GrammarError Filter) :=
  if 0 < s.openedAt i then
    match inside (s.sub i j) with
    | none => none
    | some (.error source) => some (.error (.nested s.text source))
    | some (.ok tree) => some (.ok tree)
  else some (s.leaf i)

/-- `readFrom` in `left` rounds, with `rounds` rounds for each bracket that is to be closed. -/
def scanWithin (rounds : Nat) (inside : Segment → Option (Except GrammarError Filter))
    (s : Segment) : Nat → Option Logic → Array Filter → Nat → Option (Except GrammarError Filter)
  | 0, _, _, _ => none
  | left + 1, logic, items, i =>
      if i + 2 ≤ s.last then
        match s.itemEndWithin rounds i with
        | none => none
        | some (.error error) => some (.error error)
        | some (.ok j) =>
            match s.itemWithin inside i j with
            | none => none
            | some (.error error) => some (.error error)
            | some (.ok tree) =>
                match s.logicAt logic (j + 1) with
                | .error error => some (.error error)
                | .ok logic => s.scanWithin rounds inside left logic (items.push tree) (j + 2)
      else some (s.treeOf logic items)

/-- The filter that a segment denotes, if it is found in so many rounds of each loop and with
so many segments read inside of one another. -/
def readWithin (rounds : Nat) : Nat → Segment → Option (Except GrammarError Filter)
  | 0, _ => none
  | depth + 1, s =>
      match s.levelWithin rounds with
      | none => none
      | some (.error error) => some (.error error)
      | some (.ok level) =>
          level.scanWithin rounds (readWithin rounds depth) rounds none #[] level.first

/-! ### Bounds that suffice -/

theorem closingWithin_eq {opening left right : Nat} (hBehind : i ≤ s.last + 2)
    (hRounds : s.last + 2 < i + 4 * rounds) :
    s.closingWithin opening rounds left right i = some (s.closingFrom opening left right i) := by
  induction rounds generalizing left right i with
  | zero => omega
  | succ rounds ih =>
      rw [closingWithin, closingFrom]
      by_cases hMore : i + 2 ≤ s.last
      · rw [if_pos hMore, if_pos hMore]
        split
        · rfl
        · split
          · rfl
          · exact ih (by omega) (by omega)
      · rw [if_neg hMore, if_neg hMore]

theorem itemEndWithin_eq (hBehind : i ≤ s.last + 2) (hRounds : s.last + 2 < i + 4 * rounds) :
    s.itemEndWithin rounds i = some (s.itemEnd i) := by
  unfold itemEndWithin itemEnd
  split
  · exact closingWithin_eq hBehind hRounds
  · rfl

theorem levelWithin_eq (hRounds : s.last + 2 < s.first + 4 * rounds) :
    s.levelWithin rounds = some s.level := by
  unfold levelWithin Segment.level
  split
  · rename_i hSize
    have hSlot := add_two_le_of_size hSize
    have hWraps : s.wrapsWholeWithin rounds = some s.wrapsWhole := by
      unfold wrapsWholeWithin Segment.wrapsWhole
      split
      · rw [closingWithin_eq (by omega) hRounds, ← closing]
        cases s.closing s.first <;> rfl
      · rfl
    rw [hWraps]
    cases s.wrapsWhole with
    | error error => rfl
    | ok wraps => cases wraps <;> rfl
  · rfl

theorem itemWithin_eq {inside : Segment → Option (Except GrammarError Filter)}
    (hInside : 0 < s.openedAt i → inside (s.sub i j) = some (s.sub i j).read) :
    s.itemWithin inside i j = some (s.item i j) := by
  unfold itemWithin item
  split
  · rename_i hOpened
    rw [hInside hOpened]
    cases (s.sub i j).read <;> rfl
  · rfl

/-- A scan ends in as many rounds as there are items and one more, if what stands in brackets
is read. -/
theorem scanWithin_eq {inside : Segment → Option (Except GrammarError Filter)} {left : Nat}
    {items : Array Filter} (hFirst : s.first ≤ i) (hScan : s.Scans logic i)
    (hInside : ∀ logic i j, s.Scans logic i → i + 2 ≤ s.last → 0 < s.openedAt i →
      s.closing i = .ok j → inside (s.sub i j) = some (s.sub i j).read)
    (hBehind : i ≤ s.last + 2) (hLeft : s.last + 2 < i + 4 * left)
    (hRounds : s.last + 2 < s.first + 4 * rounds) :
    s.scanWithin rounds inside left logic items i = some (s.readFrom logic items i hFirst) := by
  induction left generalizing logic items i with
  | zero => omega
  | succ left ih =>
      rw [scanWithin]
      by_cases hMore : i + 2 ≤ s.last
      · rw [if_pos hMore, itemEndWithin_eq hBehind (by omega)]
        cases hEnd : s.itemEnd i with
        | error error => rw [readFrom_of_unended hFirst hMore hEnd]
        | ok j =>
            have hLater := lt_itemEnd hEnd
            have hItem : s.itemWithin inside i j = some (s.item i j) := by
              apply itemWithin_eq
              intro hOpened
              rw [itemEnd, if_pos hOpened] at hEnd
              exact hInside logic i j hScan hMore hOpened hEnd
            have hLast : j ≤ s.last := by
              unfold itemEnd at hEnd
              split at hEnd
              · exact (closingFrom_bounds hEnd).2
              · cases hEnd
                exact hMore
            obtain ⟨slots, hSlots⟩ := itemEnd_slots hEnd
            rw [readFrom_of_ended hFirst hMore hEnd (by omega)]
            simp only [hItem]
            cases hTree : s.item i j with
            | error error => rfl
            | ok tree =>
                cases hLogic : s.logicAt logic (j + 1) with
                | error error => rfl
                | ok fixed =>
                    exact ih (by omega) (hScan.next hMore hEnd hTree hLogic) (by omega) (by omega)
      · rw [if_neg hMore, readFrom, dif_neg hMore]

/-- A segment is read as deep as its level opens brackets, and not deeper. -/
theorem readWithin_eq {depth : Nat} (hRounds : s.last + 2 < s.first + 4 * rounds)
    (hDepth : s.levelOpenings < depth) : readWithin rounds depth s = some s.read := by
  induction depth generalizing s with
  | zero => omega
  | succ depth ih =>
      rw [readWithin, levelWithin_eq hRounds, read]
      cases hLevel : s.level with
      | error error => rfl
      | ok level =>
          obtain ⟨hFirst, hLast⟩ := ends_of_level hLevel
          have hSlot := add_two_le_of_level hLevel
          refine scanWithin_eq (Nat.le_refl _) .first ?_ (by omega) (by omega) (by omega)
          intro logic i j hScan hMore hOpened hClosing
          have hInside : Descends s (level.sub i j) := .inside hLevel hScan hMore hOpened hClosing
          have hFewer := hInside.levelOpenings_lt
          have hFront := hScan.first_le
          obtain ⟨-, hBack⟩ := closingFrom_bounds hClosing
          refine ih ?_ (by omega)
          change j + 2 < i + 4 * rounds
          omega

/-! ### Which brackets are taken off -/

theorem bracket_at_cutFront (hSeveral : s.first ≠ s.last) (hOpened : 0 < s.openedAt s.first) :
    (s.tokens.getD s.first [])[s.cutFront]? = some leftBracket := by
  rw [openedAt, leadingRun_pos_iff, token_first hSeveral, List.head?_drop] at hOpened
  exact hOpened

theorem bracket_at_cutBack (hSeveral : s.first ≠ s.last) (hClosed : 0 < s.closedAt s.last) :
    (s.tokens.getD s.last []).reverse[s.cutBack]? = some rightBracket := by
  rw [closedAt, trailingRun_pos_iff, token_last hSeveral, List.getLast?_eq_head?_reverse,
    List.reverse_take, List.head?_drop] at hClosed
  have hCut : s.cutBack ≤ (s.tokens.getD s.last []).length := by
    by_contra hOver
    have hNone : (s.tokens.getD s.last []).length - s.cutBack = 0 := by omega
    rw [hNone, Nat.sub_zero, List.getElem?_eq_none (by simp)] at hClosed
    cases hClosed
  rwa [Nat.sub_sub_self hCut] at hClosed

theorem Descends.tokens_eq (hInside : Descends s t) : t.tokens = s.tokens := by
  obtain ⟨hLevel, -⟩ := hInside
  obtain ⟨-, ⟨-, rfl⟩ | ⟨-, rfl⟩⟩ := level_cases hLevel
  · rfl
  · rfl

/-- What is taken off the second segment next stands behind, at the front, and in front of, at
the end, what is taken off the first one: at other tokens, or further inside of the same
one. -/
def StripsInside (s t : Segment) : Prop :=
  (s.first < t.first ∨ s.first = t.first ∧ s.cutFront < t.cutFront) ∧
    (t.last < s.last ∨ t.last = s.last ∧ s.cutBack < t.cutBack)

theorem StripsInside.trans (hOuter : s.StripsInside t) (hInner : t.StripsInside u) :
    s.StripsInside u := by
  unfold StripsInside at *
  omega

theorem Descends.stripsInside (hInside : Descends s t) (hStripped : s.level = .ok s.strip) :
    s.StripsInside t := by
  obtain ⟨hLevel, hScan, hMore, hOpened, hClosing⟩ := hInside
  rename_i level logic i j
  rw [hStripped] at hLevel
  cases hLevel
  have hFirst : s.first ≤ i := hScan.first_le
  have hLast : j ≤ s.last := (closingFrom_bounds hClosing).2
  constructor
  · rcases Nat.eq_or_lt_of_le hFirst with rfl | hBehind
    · refine .inr ⟨rfl, ?_⟩
      change s.cutFront < if s.first = s.first then s.cutFront + 1 else 0
      rw [if_pos rfl]
      exact Nat.lt_succ_self _
    · exact .inl hBehind
  · rcases Nat.eq_or_lt_of_le hLast with rfl | hBefore
    · refine .inr ⟨rfl, ?_⟩
      change s.cutBack < if s.last = s.last then s.cutBack + 1 else 0
      rw [if_pos rfl]
      exact Nat.lt_succ_self _
    · exact .inl hBefore

/-- However deep a level is read, the brackets that are taken off for it are others than those
of the levels around it. -/
theorem stripsInside_of_path (hStripped : s.level = .ok s.strip) (hPath : TransGen Descends s t) :
    s.StripsInside t := by
  induction hPath with
  | single hInside => exact hInside.stripsInside hStripped
  | tail hPath hInside ih =>
      -- the segment in between stands in brackets, which were taken off for it
      obtain ⟨outer, -, hOuter⟩ := TransGen.tail'_iff.mp hPath
      exact ih.trans (hInside.stripsInside hOuter.level_eq)

end Segment

/-! ### Ranges of tokens -/

open Relation (TransGen)

def parseTokensWithin (rounds depth : Nat) (tokens : Array Token) (start stop : Nat) :
    Option (Except GrammarError Filter) :=
  if start ≤ stop ∧ stop < tokens.size then
    Segment.readWithin rounds depth { tokens := tokens, first := start, last := stop }
  else some (.error (.tokenCount "" 0))

def fieldBrackets (tokens : Array Token) (start stop : Nat) : Nat :=
  ((List.range ((stop - start) / 4 + 1)).map fun k =>
    leadingRun (tokens.getD (start + 4 * k) [])).sum

theorem openings_range {tokens : Array Token} {start stop : Nat} (hOrder : start ≤ stop) :
    Segment.openings { tokens := tokens, first := start, last := stop } start =
      fieldBrackets tokens start stop := by
  have hCount : (stop + 4 - start) / 4 = (stop - start) / 4 + 1 := by omega
  rw [Segment.openings_eq_sum, hCount, fieldBrackets]
  congr 1
  apply List.map_congr_left
  intro k _
  exact congrArg leadingRun (Segment.token_of_uncut rfl rfl _)

/-- Reading a range ends.  No loop takes more rounds than the range has fields and one more,
and at most one segment for each bracket that begins a field is read inside of the first one.
Each of them has a number of tokens that can be counted off in slots and stands in one pair of
brackets as a whole.  This pair is taken off, and it is no pair that was taken off for a level
around it. -/
theorem parseTokens_ends (tokens : Array Token) (start stop : Nat) :
    parseTokensWithin ((stop - start) / 4 + 2) (1 + fieldBrackets tokens start stop)
        tokens start stop = some (parseTokens tokens start stop) ∧
      (∀ s t, Segment.Descends s t →
        t.tokens = s.tokens ∧ t.wrapsWhole = .ok true ∧ t.size % 4 = 3 ∧
        t.level = .ok t.strip ∧
        (t.tokens.getD t.first [])[t.cutFront]? = some leftBracket ∧
        (t.tokens.getD t.last []).reverse[t.cutBack]? = some rightBracket) ∧
      ∀ s t, s.level = .ok s.strip → TransGen Segment.Descends s t →
        (t.first, t.cutFront) ≠ (s.first, s.cutFront) ∧
        (t.last, t.cutBack) ≠ (s.last, s.cutBack) := by
  refine ⟨?_, ?_, ?_⟩
  · unfold parseTokensWithin parseTokens
    split
    · rename_i hRange
      apply Segment.readWithin_eq
      · change stop + 2 < start + 4 * ((stop - start) / 4 + 2)
        omega
      · have hOpenings := Segment.levelOpenings_le
          { tokens := tokens, first := start, last := stop }
        rw [openings_range hRange.1] at hOpenings
        omega
    · rfl
  · intro s t hInside
    have hSlot := Segment.add_two_le_of_size hInside.size_mod
    have hSeveral : t.first ≠ t.last := by omega
    obtain ⟨hOpened, hClosed⟩ := Segment.ends_of_wrapsWhole hInside.wrapsWhole
    exact ⟨hInside.tokens_eq, hInside.wrapsWhole, hInside.size_mod, hInside.level_eq,
      Segment.bracket_at_cutFront hSeveral hOpened, Segment.bracket_at_cutBack hSeveral hClosed⟩
  · intro s t hStripped hPath
    have hOrder := Segment.stripsInside_of_path hStripped hPath
    unfold Segment.StripsInside at hOrder
    simp only [ne_eq, Prod.mk.injEq]
    omega

/-- The level inside of the outer brackets has the ends of the level around it, and other
brackets are taken off for it. -/
theorem parseTokens_ends_same_ends :
    let tokens : Array Token := #[['(', '(', 'a'], ['e', 'q'], ['1', ')', ')']]
    let outer : Segment := { tokens := tokens, first := 0, last := 2 }
    let inner : Segment := { tokens := tokens, first := 0, last := 2, cutFront := 1, cutBack := 1 }
    outer.level = .ok outer.strip ∧ Segment.Descends outer inner ∧
      inner.wrapsWhole = .ok true ∧ inner.size % 4 = 3 ∧
      (inner.first, inner.cutFront) ≠ (outer.first, outer.cutFront) ∧
      parseTokensWithin 2 3 tokens 0 2 = some (parseTokens tokens 0 2) := by
  intro tokens outer inner
  have hLevel : outer.level = .ok outer.strip := by cbv
  have hClosing : outer.strip.closing 0 = .ok 2 := by cbv
  have hInside : Segment.Descends outer inner :=
    .inside hLevel .first (by decide) (by decide) hClosing
  obtain ⟨hRead, hWindows, hMarks⟩ := parseTokens_ends tokens 0 2
  obtain ⟨-, hWraps, hSize, -, -, -⟩ := hWindows outer inner hInside
  have hOther := hMarks outer inner hLevel (.single hInside)
  exact ⟨hLevel, hInside, hWraps, hSize, hOther.1, hRead⟩

end Filter
end RecordFilter

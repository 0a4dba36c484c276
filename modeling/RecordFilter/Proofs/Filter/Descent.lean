/-
How levels are read inside of one another.

Reading a segment scans its level item by item, and where an item stands in brackets its
segment is read in turn.  `Scans` holds of the positions that a scan comes to, `Descends` of
two segments if reading the first one reads the second one directly, and `LooksAt` of all
segments whose tokens are looked at on the way.  What fails is told by the item at which
the scan stops (`exists_stop_of_readFrom`).
-/
import Mathlib.Logic.Relation
import RecordFilter.Proofs.Filter.Segments

namespace RecordFilter
namespace Filter
namespace Segment

open Relation (ReflTransGen)

variable {s t level root : Segment} {logic : Option Logic} {i j : Nat}
  {error : GrammarError}

/-! ### Scanning and descending -/

/-- The scan of a level comes to the item at a position, and its connective is known as far
as the tokens in front tell. -/
inductive Scans (s : Segment) : Option Logic → Nat → Prop where
  | first : Scans s none s.first
  | next {logic fixed : Option Logic} {tree : Filter} {i j : Nat} (hBefore : Scans s logic i)
      (hMore : i + 2 ≤ s.last) (hEnd : s.itemEnd i = .ok j) (hItem : s.item i j = .ok tree)
      (hLogic : s.logicAt logic (j + 1) = .ok fixed) : Scans s fixed (j + 2)

/-- Reading the first segment comes to an item in brackets, and the second segment is read
for it. -/
inductive Descends : Segment → Segment → Prop where
  | inside {s level : Segment} {logic : Option Logic} {i j : Nat} (hLevel : s.level = .ok level)
      (hScan : level.Scans logic i) (hMore : i + 2 ≤ level.last)
      (hOpened : 0 < level.openedAt i) (hClosing : level.closing i = .ok j) :
      Descends s (level.sub i j)

/-- Reading the first segment looks at tokens of the second one: it is read itself, or it is
the level of a segment that is, or a part of such a one, with a comparison or with brackets
that do not match. -/
inductive LooksAt (root : Segment) : Segment → Prop where
  | entered {s : Segment} (hPath : ReflTransGen Descends root s) : LooksAt root s
  | level {s level : Segment} (hPath : ReflTransGen Descends root s)
      (hLevel : s.level = .ok level) : LooksAt root level
  | part {s : Segment} {i j : Nat} (hWhole : LooksAt root s) (hFirst : s.first ≤ i)
      (hSlot : i + 2 ≤ j) (hLast : j ≤ s.last) : LooksAt root (s.sub i j)

/-! ### Levels -/

/-- A segment whose tokens can be counted off in slots is its own level, unless it stands in
brackets as a whole. -/
theorem level_cases (hLevel : s.level = .ok level) :
    s.size % 4 = 3 ∧
      (s.wrapsWhole = .ok true ∧ level = s.strip ∨ s.wrapsWhole = .ok false ∧ level = s) := by
  unfold Segment.level at hLevel
  split at hLevel
  · rename_i hSize
    refine ⟨hSize, ?_⟩
    split at hLevel
    · cases hLevel
    · rename_i hWraps
      cases hLevel
      exact .inl ⟨hWraps, rfl⟩
    · rename_i hWraps
      cases hLevel
      exact .inr ⟨hWraps, rfl⟩
  · cases hLevel

theorem add_two_le_of_size (hSize : s.size % 4 = 3) : s.first + 2 ≤ s.last := by
  unfold size at hSize
  omega

theorem ends_of_wrapsWhole (hWraps : s.wrapsWhole = .ok true) :
    0 < s.openedAt s.first ∧ 0 < s.closedAt s.last := by
  unfold wrapsWhole at hWraps
  split at hWraps
  · rename_i hEnds
    exact hEnds
  · cases hWraps

theorem closing_of_wrapsWhole (hWraps : s.wrapsWhole = .error error) :
    s.closing s.first = .error error := by
  unfold wrapsWhole at hWraps
  split at hWraps
  · split at hWraps
    · rename_i hClosing
      cases hWraps
      exact hClosing
    · cases hWraps
  · cases hWraps

theorem ends_of_level (hLevel : s.level = .ok level) :
    level.first = s.first ∧ level.last = s.last := by
  obtain ⟨-, ⟨-, rfl⟩ | ⟨-, rfl⟩⟩ := level_cases hLevel
  · exact ⟨rfl, rfl⟩
  · exact ⟨rfl, rfl⟩

theorem add_two_le_of_level (hLevel : s.level = .ok level) : level.first + 2 ≤ level.last := by
  obtain ⟨hFirst, hLast⟩ := ends_of_level hLevel
  have hSlot := add_two_le_of_size (level_cases hLevel).1
  omega

theorem level_eq_error (hLevel : s.level = .error error) :
    error = .tokenCount s.text s.size ∨
      s.first + 2 ≤ s.last ∧ s.closing s.first = .error error := by
  unfold Segment.level at hLevel
  split at hLevel
  · rename_i hSize
    split at hLevel
    · rename_i hWraps
      cases hLevel
      exact .inr ⟨add_two_le_of_size hSize, closing_of_wrapsWhole hWraps⟩
    · cases hLevel
    · cases hLevel
  · cases hLevel
    exact .inl rfl

/-! ### Positions -/

theorem itemEnd_slots (hEnd : s.itemEnd i = .ok j) : ∃ slots, j = i + 2 + 4 * slots := by
  unfold itemEnd at hEnd
  split at hEnd
  · exact (closingFrom_bounds hEnd).1
  · cases hEnd
    exact ⟨0, rfl⟩

theorem Scans.exists_slots (hScan : s.Scans logic i) : ∃ slots, i = s.first + 4 * slots := by
  induction hScan with
  | first => exact ⟨0, rfl⟩
  | next hBefore hMore hEnd hItem hLogic ih =>
      obtain ⟨before, hPosition⟩ := ih
      obtain ⟨slots, hSlots⟩ := itemEnd_slots hEnd
      exact ⟨before + slots + 1, by omega⟩

theorem Scans.first_le (hScan : s.Scans logic i) : s.first ≤ i := by
  obtain ⟨slots, rfl⟩ := hScan.exists_slots
  exact Nat.le_add_right _ _

/-! ### What is read inside of brackets -/

theorem Descends.wrapsWhole (hInside : Descends s t) : t.wrapsWhole = .ok true := by
  obtain ⟨hLevel, hScan, hMore, hOpened, hClosing⟩ := hInside
  exact wrapsWhole_of_closing hScan.first_le hOpened hClosing

theorem Descends.level_eq (hInside : Descends s t) : t.level = .ok t.strip := by
  obtain ⟨hLevel, hScan, hMore, hOpened, hClosing⟩ := hInside
  exact level_of_closing hScan.first_le hOpened hClosing

theorem Descends.size_mod (hInside : Descends s t) : t.size % 4 = 3 :=
  (level_cases hInside.level_eq).1

/-! ### Where a scan stops -/

/-- What goes wrong with the item at a position: its end is not found, or it is wrong itself,
or the connective behind it is. -/
inductive StopsAt (s : Segment) (logic : Option Logic) (i : Nat) (error : GrammarError) : Prop where
  | unended (hEnd : s.itemEnd i = .error error)
  | item {j : Nat} (hEnd : s.itemEnd i = .ok j) (hItem : s.item i j = .error error)
  | connective {j : Nat} {tree : Filter} (hEnd : s.itemEnd i = .ok j)
      (hItem : s.item i j = .ok tree) (hLogic : s.logicAt logic (j + 1) = .error error)

theorem exists_stop_of_readFrom {items : Array Filter} {hFirst : s.first ≤ i}
    (hScan : s.Scans logic i) (hRead : s.readFrom logic items i hFirst = .error error) :
    (∃ logic i, s.Scans logic i ∧ i + 2 ≤ s.last ∧ s.StopsAt logic i error) ∨
      error = .emptyCondition s.text := by
  -- what is left of the level gets shorter with every item
  induction hLeft : s.last - i using Nat.strongRecOn generalizing logic items i with
  | ind left ih =>
      by_cases hMore : i + 2 ≤ s.last
      · cases hEnd : s.itemEnd i with
        | error cause =>
            rw [readFrom_of_unended hFirst hMore hEnd] at hRead
            cases hRead
            exact .inl ⟨logic, i, hScan, hMore, .unended hEnd⟩
        | ok j =>
            have hLater := lt_itemEnd hEnd
            rw [readFrom_of_ended hFirst hMore hEnd (by omega)] at hRead
            cases hItem : s.item i j with
            | error cause =>
                rw [hItem] at hRead
                cases hRead
                exact .inl ⟨logic, i, hScan, hMore, .item hEnd hItem⟩
            | ok tree =>
                rw [hItem] at hRead
                cases hLogic : s.logicAt logic (j + 1) with
                | error cause =>
                    rw [hLogic] at hRead
                    cases hRead
                    exact .inl ⟨logic, i, hScan, hMore, .connective hEnd hItem hLogic⟩
                | ok fixed =>
                    rw [hLogic] at hRead
                    exact ih _ (by omega) (hScan.next hMore hEnd hItem hLogic) hRead rfl
      · rw [readFrom, dif_neg hMore] at hRead
        unfold treeOf at hRead
        split at hRead
        · cases hRead
        · split at hRead
          · cases hRead
          · cases hRead
            exact .inr rfl

theorem exists_part_of_closing (hMore : i + 2 ≤ s.last) (hClosing : s.closing i = .error error) :
    ∃ j, i + 2 ≤ j ∧ j ≤ s.last ∧ error = .unbalancedBrackets (s.sub i j).text := by
  have hFrom : ∀ {opening left right k : Nat}, opening ≤ k → opening + 2 ≤ s.last →
      s.closingFrom opening left right k = .error error →
        ∃ j, opening + 2 ≤ j ∧ j ≤ s.last ∧
          error = .unbalancedBrackets (s.sub opening j).text := by
    intro opening left right k hBehind hInside hError
    fun_induction closingFrom s opening left right k with
    | case1 left right k hEnd hOver =>
        cases hError
        exact ⟨k + 2, by omega, hEnd, rfl⟩
    | case2 => cases hError
    | case3 left right k hEnd hOver hEqual ih => exact ih (by omega) hError
    | case4 left right k hEnd =>
        cases hError
        exact ⟨s.last, hInside, Nat.le_refl _, rfl⟩
  exact hFrom (Nat.le_refl i) hMore hClosing

end Segment
end Filter
end RecordFilter

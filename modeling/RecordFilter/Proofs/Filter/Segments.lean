/-
Segments as windows.

A segment of the token array shows a window, slot by slot.  Positions and counted brackets
then no longer matter: what is read from a segment is what is read from its window
(`read_eq_ofWindow`), and the tokens of a range are read like a list of their own
(`parseTokens_eq_ofTokens`).
-/
import RecordFilter.Filter.Parse
import RecordFilter.Proofs.Filter.Items

namespace RecordFilter
namespace Filter
namespace Segment

variable {s t : Segment} {i j n : Nat}

/-! ### The window of a segment -/

def slot (s : Segment) (i : Nat) : Slot := ⟨s.token i, s.token (i + 1), s.token (i + 2)⟩

/-- The links from a connective at position `i` on, `n` of them. -/
def links (s : Segment) (i : Nat) : Nat → List Link
  | 0 => []
  | n + 1 => (s.token i, s.slot (i + 1)) :: s.links (i + 4) n

/-- The window of the slot at position `i` and `n` more. -/
def window (s : Segment) (i n : Nat) : Window := ⟨s.slot i, s.links (i + 3) n⟩

theorem window_succ (s : Segment) (i n : Nat) :
    s.window i (n + 1) = (s.window (i + 4) n).extend (s.slot i) (s.token (i + 3)) := rfl

theorem tokens_window (s : Segment) (i n : Nat) :
    (s.window i n).tokens = (List.range' i (4 * n + 3)).map s.token := by
  induction n generalizing i with
  | zero => rfl
  | succ n ih =>
      have hCount : 4 * (n + 1) + 3 = 4 * n + 3 + 1 + 1 + 1 + 1 := by omega
      rw [window_succ, Window.tokens_extend, ih, hCount]
      rfl

theorem eq_of_tokens_eq {w v : Window} (hTokens : w.tokens = v.tokens) : w = v := by
  have hSame := Window.ofTokens?_tokens w
  rw [hTokens, Window.ofTokens?_tokens] at hSame
  exact (Option.some.inj hSame).symm

theorem window_congr (hTokens : ∀ k, k < 4 * n + 3 → s.token (i + k) = t.token (j + k)) :
    s.window i n = t.window j n := by
  apply eq_of_tokens_eq
  rw [tokens_window, tokens_window, List.range'_eq_map_range, List.range'_eq_map_range,
    List.map_map, List.map_map]
  apply List.map_congr_left
  intro k hMember
  exact hTokens k (List.mem_range.mp hMember)

theorem window_sub {m k : Nat} (hFirst : s.first ≤ m) (hLast : j ≤ s.last) (hFrom : m ≤ k)
    (hTo : k + 2 + 4 * n ≤ j) : (s.sub m j).window k n = s.window k n :=
  window_congr fun l _ => token_sub hFirst hLast (by omega) (by omega)

theorem text_eq_window (hLast : s.first + 2 + 4 * n = s.last) :
    s.text = (s.window s.first n).text := by
  have hSize : s.size = 4 * n + 3 := by
    unfold size
    omega
  rw [text, hSize, Window.text, tokens_window]

theorem text_sub (hFirst : s.first ≤ i) (hLast : i + 2 + 4 * n ≤ s.last) :
    (s.sub i (i + 2 + 4 * n)).text = (s.window i n).text := by
  have hWindow := window_sub (k := i) (n := n) hFirst hLast (Nat.le_refl i) (Nat.le_refl _)
  rw [← hWindow]
  exact text_eq_window (s := s.sub i (i + 2 + 4 * n)) rfl

theorem value_last_window (s : Segment) (i n : Nat) :
    (s.window i n).last.value = s.token (i + 2 + 4 * n) := by
  induction n generalizing i with
  | zero => rfl
  | succ n ih =>
      rw [window_succ, Window.last_extend, ih]
      congr 1
      omega

theorem links_strip (hFirst : s.first < i) (hLast : i + 3 + 4 * n = s.last) :
    s.strip.links i (n + 1) = Window.stripLast (s.links i (n + 1)) := by
  have hToken : ∀ k, s.first < k → k < s.last → s.strip.token k = s.token k :=
    fun k hAfter hBefore => token_strip_of_ne (by omega) (by omega)
  induction n generalizing i with
  | zero =>
      have hEnd : s.strip.token (i + 1 + 2) = (s.token (i + 1 + 2)).dropLast := by
        have hSame : i + 1 + 2 = s.last := by omega
        rw [hSame]
        exact token_strip_last (by omega)
      rw [links, links, links, slot, hToken i hFirst (by omega),
        hToken (i + 1) (by omega) (by omega), hToken (i + 1 + 1) (by omega) (by omega), hEnd]
      rfl
  | succ n ih =>
      have hRest := ih (i := i + 4) (by omega) (by omega)
      rw [links, hRest, slot, hToken i hFirst (by omega),
        hToken (i + 1) (by omega) (by omega), hToken (i + 1 + 1) (by omega) (by omega),
        hToken (i + 1 + 2) (by omega) (by omega)]
      rfl

theorem window_strip (hLast : s.first + 2 + 4 * n = s.last) :
    s.strip.window s.first n = (s.window s.first n).strip := by
  have hFront := token_strip_first (s := s) (by omega)
  have hMiddle : s.strip.token (s.first + 1) = s.token (s.first + 1) :=
    token_strip_of_ne (by omega) (by omega)
  cases n with
  | zero =>
      have hEnd : s.strip.token (s.first + 2) = (s.token (s.first + 2)).dropLast := by
        have hSame : s.first + 2 = s.last := by omega
        rw [hSame]
        exact token_strip_last (by omega)
      rw [window, window, slot, hFront, hMiddle, hEnd]
      rfl
  | succ n =>
      have hEnd : s.strip.token (s.first + 2) = s.token (s.first + 2) :=
        token_strip_of_ne (by omega) (by omega)
      have hLinks := links_strip (s := s) (i := s.first + 3) (n := n) (by omega) (by omega)
      rw [window, window, slot, hFront, hMiddle, hEnd, hLinks]
      rfl

theorem window_strip_sub (hFirst : s.first ≤ i) (hLast : i + 2 + 4 * n ≤ s.last) :
    (s.sub i (i + 2 + 4 * n)).strip.window i n = (s.window i n).strip := by
  have hStrip := window_strip (s := s.sub i (i + 2 + 4 * n)) (n := n) rfl
  have hSub : (s.sub i (i + 2 + 4 * n)).window i n = s.window i n :=
    window_sub hFirst hLast (Nat.le_refl i) (Nat.le_refl _)
  exact hStrip.trans (congrArg Window.strip hSub)

/-- A window weighs what its slots up to the `k`th weigh and what those behind it do. -/
theorem weight_window_add (s : Segment) (i k m : Nat) :
    (s.window i (k + (m + 1))).weight =
      (s.window i k).weight + (s.window (i + 4 * (k + 1)) m).weight := by
  induction k generalizing i with
  | zero =>
      rw [Nat.zero_add, window_succ]
      rfl
  | succ k ih =>
      have hCount : k + 1 + (m + 1) = k + (m + 1) + 1 := by omega
      have hPosition : i + 4 * (k + 1 + 1) = i + 4 + 4 * (k + 1) := by omega
      rw [hCount, window_succ, window_succ, Window.weight_extend, Window.weight_extend, ih,
        hPosition]
      exact (Nat.add_assoc _ _ _).symm

theorem weight_window_behind_lt {k m : Nat} (hCount : k + (m + 1) = n) :
    (s.window (i + 2 + 4 * k + 2) m).weight < (s.window i n).weight := by
  have hPosition : i + 2 + 4 * k + 2 = i + 4 * (k + 1) := by omega
  have hFront : 0 < (s.window i k).weight := by
    unfold Window.weight
    omega
  rw [← hCount, weight_window_add, hPosition]
  omega

theorem weight_window_inside_lt {k : Nat} (hCount : k ≤ n) (hOpened : 0 < s.openedAt i) :
    (s.window i k).strip.weight < (s.window i n).weight := by
  have hStrip := Window.weight_strip_lt (w := s.window i k) hOpened
  obtain ⟨rest, rfl⟩ := Nat.exists_eq_add_of_le hCount
  cases rest with
  | zero => exact hStrip
  | succ m =>
      rw [weight_window_add]
      omega

/-! ### Where a bracket closes -/

theorem opened_slot (s : Segment) (i : Nat) : (s.slot i).opened = s.openedAt i := rfl

theorem closed_slot (s : Segment) (i : Nat) : (s.slot i).closed = s.closedAt (i + 2) := rfl

/-- What becomes of the brackets that are open at position `i`, in the segment and in its
window: more are closed than opened, all are closed, or some stay open.  The segment counts
what was opened and what was closed, the window what is open. -/
theorem closingFrom_cases (opening : Nat) {left right : Nat} (hDepth : right ≤ left)
    (hLast : i + 2 + 4 * n = s.last) :
    (∃ k ≤ n,
      Window.closingFrom (left - right) (s.slot i) (s.links (i + 3) n) =
        .overclosed (s.window i k) ∧
      s.closingFrom opening left right i =
        .error (.unbalancedBrackets (s.sub opening (i + 2 + 4 * k)).text)) ∨
    (∃ k rest, k + rest = n ∧
      Window.closingFrom (left - right) (s.slot i) (s.links (i + 3) n) =
        .closed (s.window i k) (s.links (i + 3 + 4 * k) rest) ∧
      s.closingFrom opening left right i = .ok (i + 2 + 4 * k)) ∨
    Window.closingFrom (left - right) (s.slot i) (s.links (i + 3) n) = .unclosed ∧
      s.closingFrom opening left right i =
        .error (.unbalancedBrackets (s.sub opening s.last).text) := by
  fun_induction closingFrom s opening left right i generalizing n with
  | case1 left right i hEnd hOver =>
      have hSlot : left - right + (s.slot i).opened < (s.slot i).closed := by
        rw [opened_slot, closed_slot]
        omega
      exact .inl ⟨0, Nat.zero_le n, Window.closingFrom_of_lt hSlot _, rfl⟩
  | case2 left right i hEnd hNotOver hEqual =>
      have hSlot : left - right + (s.slot i).opened = (s.slot i).closed := by
        rw [opened_slot, closed_slot]
        omega
      exact .inr (.inl ⟨0, n, Nat.zero_add n, Window.closingFrom_of_eq hSlot _, rfl⟩)
  | case3 left right i hEnd hNotOver hNotEqual ih =>
      have hSlot : (s.slot i).closed < left - right + (s.slot i).opened := by
        rw [opened_slot, closed_slot]
        omega
      cases n with
      | zero =>
          refine .inr (.inr ⟨Window.closingFrom_nil_of_gt hSlot, ?_⟩)
          rw [closingFrom, if_neg (by omega)]
      | succ n =>
          have hNext : left - right + (s.slot i).opened - (s.slot i).closed =
              left + s.openedAt i - (right + s.closedAt (i + 2)) := by
            rw [opened_slot, closed_slot]
            omega
          rw [links, Window.closingFrom_cons_of_gt hSlot, hNext]
          rcases @ih n (by omega) (by omega)
            with ⟨k, hCount, hInner, hRest⟩ | ⟨k, rest, hCount, hInner, hRest⟩ | ⟨hInner, hRest⟩
          · refine .inl ⟨k + 1, by omega, ?_, ?_⟩
            · exact congrArg (Window.Closing.extend (s.slot i) (s.token (i + 3))) hInner
            · rw [hRest]
              congr 4
              omega
          · refine .inr (.inl ⟨k + 1, rest, by omega, ?_, ?_⟩)
            · have hBehind : i + 3 + 4 * (k + 1) = i + 4 + 3 + 4 * k := by omega
              rw [hBehind]
              exact congrArg (Window.Closing.extend (s.slot i) (s.token (i + 3))) hInner
            · rw [hRest]
              congr 1
              omega
          · exact .inr (.inr
              ⟨congrArg (Window.Closing.extend (s.slot i) (s.token (i + 3))) hInner, hRest⟩)
  | case4 left right i hEnd => omega

/-- The bracket at a position is closed at a value, or the window up to some value, or to the
end of the segment, is not balanced. -/
theorem closing_cases (hFirst : s.first ≤ i) (hLast : i + 2 + 4 * n = s.last) :
    (∃ through, (s.window i n).closing = .overclosed through ∧
      s.closing i = .error (.unbalancedBrackets through.text)) ∨
    (∃ k rest, k + rest = n ∧
      (s.window i n).closing = .closed (s.window i k) (s.links (i + 3 + 4 * k) rest) ∧
      s.closing i = .ok (i + 2 + 4 * k)) ∨
    (s.window i n).closing = .unclosed ∧
      s.closing i = .error (.unbalancedBrackets (s.window i n).text) := by
  rcases closingFrom_cases i (Nat.le_refl 0) hLast
    with ⟨k, hCount, hWindow, hClosing⟩ | hClosed | ⟨hWindow, hClosing⟩
  · refine .inl ⟨s.window i k, hWindow, ?_⟩
    rw [closing, hClosing, text_sub hFirst (by omega)]
  · exact .inr (.inl hClosed)
  · refine .inr (.inr ⟨hWindow, ?_⟩)
    rw [closing, hClosing, ← hLast, text_sub hFirst (by omega)]

/-! ### What is read -/

theorem wrapsWhole_eq_window (hLast : s.first + 2 + 4 * n = s.last) :
    s.wrapsWhole = (s.window s.first n).wrapsWhole := by
  have hOpened : (s.window s.first n).first.opened = s.openedAt s.first := rfl
  have hClosed : (s.window s.first n).last.closed = s.closedAt s.last := by
    rw [Slot.closed, value_last_window, hLast]
    rfl
  unfold wrapsWhole Window.wrapsWhole
  rw [hOpened, hClosed]
  by_cases hEnds : 0 < s.openedAt s.first ∧ 0 < s.closedAt s.last
  · rw [if_pos hEnds, if_pos hEnds]
    rcases closing_cases (Nat.le_refl s.first) hLast
      with ⟨through, hWindow, hClosing⟩ | ⟨k, rest, hCount, hWindow, hClosing⟩ |
        ⟨hWindow, hClosing⟩
    · simp only [hWindow, hClosing]
    · simp only [hWindow, hClosing, Except.ok.injEq]
      cases rest with
      | zero =>
          have hSame : s.first + 2 + 4 * k = s.last := by omega
          rw [hSame, beq_self_eq_true]
          rfl
      | succ rest =>
          have hOther : s.first + 2 + 4 * k ≠ s.last := by omega
          rw [beq_eq_false_iff_ne.mpr hOther]
          rfl
    · simp only [hWindow, hClosing]
  · rw [if_neg hEnds, if_neg hEnds]

theorem leaf_eq_slot (hFirst : s.first ≤ i) (hLast : i + 2 ≤ s.last) :
    s.leaf i = (s.slot i).leaf := by
  have hText : (s.sub i (i + 2)).text = spanText (s.slot i).tokens :=
    (text_sub (n := 0) hFirst hLast).trans (congrArg spanText (List.append_nil _))
  unfold leaf Slot.leaf
  rw [hText]
  rfl

/-- The tree of the item from position `i` to position `j`. -/
def item (s : Segment) (i j : Nat) : Except GrammarError Filter :=
  if 0 < s.openedAt i then
    match (s.sub i j).read with
    | .error source => .error (.nested s.text source)
    | .ok tree => .ok tree
  else s.leaf i

theorem readFrom_of_unended {logic : Option Logic} {items : Array Filter}
    {error : GrammarError} (hFirst : s.first ≤ i) (hMore : i + 2 ≤ s.last)
    (hEnd : s.itemEnd i = .error error) : s.readFrom logic items i hFirst = .error error := by
  rw [readFrom, dif_pos hMore]
  split
  · rename_i found hFound
    rw [hEnd] at hFound
    cases hFound
    rfl
  · rename_i j hFound
    rw [hEnd] at hFound
    cases hFound

theorem readFrom_of_ended {logic : Option Logic} {items : Array Filter}
    (hFirst : s.first ≤ i) (hMore : i + 2 ≤ s.last) (hEnd : s.itemEnd i = .ok j)
    (hNext : s.first ≤ j + 2) :
    s.readFrom logic items i hFirst =
      match s.item i j with
      | .error error => .error error
      | .ok tree =>
          match s.logicAt logic (j + 1) with
          | .error error => .error error
          | .ok logic => s.readFrom logic (items.push tree) (j + 2) hNext := by
  rw [readFrom, dif_pos hMore]
  split
  · rename_i error hFound
    rw [hEnd] at hFound
    cases hFound
  · rename_i found hFound
    rw [hEnd] at hFound
    cases hFound
    by_cases hOpened : 0 < s.openedAt i
    · simp only [item, read, dif_pos hOpened, if_pos hOpened]
      cases hLevel : (s.sub i j).level with
      | error source => rfl
      | ok inner => cases inner.readFrom none #[] inner.first (Nat.le_refl _) <;> rfl
    · cases hLeaf : s.leaf i with
      | error error => simp only [item, dif_neg hOpened, if_neg hOpened, hLeaf]
      | ok tree =>
          cases s.logicAt logic (j + 1) <;>
            simp only [item, dif_neg hOpened, if_neg hOpened, hLeaf]

/-- What is read from a position on is what is read from the window there, put behind the
trees in front. -/
def ReadsWindow (s : Segment) (i n : Nat) (hFirst : s.first ≤ i) : Prop :=
  ∀ (logic : Option Logic) (front : Array Filter), (logic = none → front = #[]) →
    s.readFrom logic front i hFirst =
      (readItems s.text logic (s.window i n)).map (Items.treeBehind front.toList)

theorem readBehind_eq_readMore {logic : Option Logic} {front : Array Filter} {tree : Filter}
    {hFirst : s.first ≤ j + 2} (hLast : j + 4 * n = s.last)
    (hFront : logic = none → front = #[])
    (hBehind : ∀ m, m + 1 = n → s.ReadsWindow (j + 2) m hFirst) :
    (match s.logicAt logic (j + 1) with
      | .error error => .error error
      | .ok logic => s.readFrom logic (front.push tree) (j + 2) hFirst) =
      (readMore s.text logic tree (s.links (j + 1) n)).map (Items.treeBehind front.toList) := by
  cases n with
  | zero =>
      have hEnd : s.logicAt logic (j + 1) = .ok logic := if_neg (by omega)
      rw [hEnd, links, readMore]
      simp only
      rw [readFrom, dif_neg (by omega)]
      cases logic with
      | none =>
          rw [hFront rfl]
          rfl
      | some logic =>
          simp [treeOf, Items.treeBehind, Except.map]
  | succ m =>
      rw [logicAt, if_pos (by omega), links]
      cases hAgree : agree? logic (s.token (j + 1)) with
      | none =>
          rw [readMore, hAgree]
          rfl
      | some next =>
          have hFixed : some next = none → front.push tree = #[] := by
            intro hNone
            cases hNone
          simp only
          rw [hBehind m rfl (some next) (front.push tree) hFixed, readMore_of_agree hAgree]
          change _ = ((readItems s.text (some next) (s.window (j + 2) m)).map
            (Items.cons tree)).map _
          cases hOthers : readItems s.text (some next) (s.window (j + 2) m) with
          | error error => rfl
          | ok others =>
              have hSome := isSome_of_readItems hOthers rfl
              rw [Array.toList_push]
              exact congrArg Except.ok (Items.treeBehind_cons front.toList tree hSome).symm

theorem item_of_closing {k : Nat} (hFirst : s.first ≤ i) (hOpened : 0 < s.openedAt i)
    (hClosing : s.closing i = .ok (i + 2 + 4 * k))
    (hInside : (s.sub i (i + 2 + 4 * k)).strip.ReadsWindow i k (Nat.le_refl i)) :
    s.item i (i + 2 + 4 * k) =
      match readItems (s.window i k).strip.text none (s.window i k).strip with
      | .error source => .error (.nested s.text source)
      | .ok items => .ok items.tree := by
  obtain ⟨-, hLast⟩ := closingFrom_bounds hClosing
  have hWindow : (s.sub i (i + 2 + 4 * k)).strip.window i k = (s.window i k).strip :=
    window_strip_sub hFirst hLast
  have hText : (s.sub i (i + 2 + 4 * k)).strip.text = (s.window i k).strip.text :=
    (text_eq_window rfl).trans (congrArg Window.text hWindow)
  have hRead := hInside none #[] fun _ => rfl
  rw [hWindow, hText] at hRead
  rw [item, if_pos hOpened, read, level_of_closing hFirst hOpened hClosing]
  change (match (s.sub i (i + 2 + 4 * k)).strip.readFrom none #[] i (Nat.le_refl i) with
    | .error source => Except.error (GrammarError.nested s.text source)
    | .ok tree => .ok tree) = _
  rw [hRead]
  cases readItems (s.window i k).strip.text none (s.window i k).strip with
  | error source => rfl
  | ok items => exact congrArg Except.ok items.treeBehind_nil

theorem readsWindow_of_opened (hFirst : s.first ≤ i) (hLast : i + 2 + 4 * n = s.last)
    (hOpened : 0 < s.openedAt i)
    (hInside : ∀ k ≤ n, (s.sub i (i + 2 + 4 * k)).strip.ReadsWindow i k (Nat.le_refl i))
    (hBehind : ∀ (k m : Nat) (hNext : s.first ≤ i + 2 + 4 * k + 2), k + (m + 1) = n →
      s.ReadsWindow (i + 2 + 4 * k + 2) m hNext) :
    s.ReadsWindow i n hFirst := by
  intro logic front hFront
  have hMore : i + 2 ≤ s.last := by omega
  have hEnd : s.itemEnd i = s.closing i := if_pos hOpened
  rw [readItems_of_opened (w := s.window i n) hOpened]
  rcases closing_cases hFirst hLast
    with ⟨through, hWindow, hClosing⟩ | ⟨k, rest, hCount, hWindow, hClosing⟩ |
      ⟨hWindow, hClosing⟩
  · rw [hWindow, readFrom_of_unended hFirst hMore (hEnd.trans hClosing)]
    rfl
  · have hItem := item_of_closing hFirst hOpened hClosing (hInside k (by omega))
    have hNext : s.first ≤ i + 2 + 4 * k + 2 := by omega
    rw [hWindow, readFrom_of_ended hFirst hMore (hEnd.trans hClosing) hNext]
    simp only [hItem]
    cases readItems (s.window i k).strip.text none (s.window i k).strip with
    | error source => rfl
    | ok items =>
        have hPosition : i + 3 + 4 * k = i + 2 + 4 * k + 1 := by omega
        rw [hPosition]
        exact readBehind_eq_readMore (n := rest) (by omega) hFront fun m hRest =>
          hBehind k m hNext (by omega)
  · rw [hWindow, readFrom_of_unended hFirst hMore (hEnd.trans hClosing)]
    rfl

theorem readsWindow_of_leaf (hFirst : s.first ≤ i) (hLast : i + 2 + 4 * n = s.last)
    (hOpened : ¬0 < s.openedAt i)
    (hBehind : ∀ (m : Nat) (hNext : s.first ≤ i + 2 + 2), m + 1 = n →
      s.ReadsWindow (i + 2 + 2) m hNext) :
    s.ReadsWindow i n hFirst := by
  intro logic front hFront
  have hMore : i + 2 ≤ s.last := by omega
  have hEnd : s.itemEnd i = .ok (i + 2) := if_neg hOpened
  have hLeaf : s.item i (i + 2) = (s.slot i).leaf := by
    rw [item, if_neg hOpened]
    exact leaf_eq_slot hFirst hMore
  have hZero : (s.window i n).first.opened = 0 := Nat.eq_zero_of_not_pos hOpened
  have hNext : s.first ≤ i + 2 + 2 := by omega
  rw [readItems_of_leaf hZero, readFrom_of_ended hFirst hMore hEnd hNext, hLeaf]
  change _ = Except.map _ (match (s.slot i).leaf with
    | .error error => Except.error error
    | .ok tree => readMore s.text logic tree (s.links (i + 3) n))
  cases (s.slot i).leaf with
  | error error => rfl
  | ok tree =>
      exact readBehind_eq_readMore (by omega) hFront fun m hRest => hBehind m hNext hRest

theorem readsWindow (hFirst : s.first ≤ i) (hLast : i + 2 + 4 * n = s.last) :
    s.ReadsWindow i n hFirst := by
  -- The window inside brackets and the window behind an item are both lighter.
  induction hWeight : (s.window i n).weight using Nat.strongRecOn generalizing s i n with
  | ind weight ih =>
      subst hWeight
      have hBehind : ∀ (k m : Nat) (hNext : s.first ≤ i + 2 + 4 * k + 2), k + (m + 1) = n →
          s.ReadsWindow (i + 2 + 4 * k + 2) m hNext := by
        intro k m hNext hCount
        exact ih _ (weight_window_behind_lt hCount) hNext (by omega) rfl
      by_cases hOpened : 0 < s.openedAt i
      · refine readsWindow_of_opened hFirst hLast hOpened ?_ hBehind
        intro k hCount
        have hLighter := weight_window_inside_lt hCount hOpened
        rw [← window_strip_sub hFirst (by omega)] at hLighter
        exact ih _ hLighter (Nat.le_refl i) rfl rfl
      · refine readsWindow_of_leaf hFirst hLast hOpened ?_
        intro m hNext hCount
        exact hBehind 0 m hNext (by omega)

theorem read_eq_ofWindow (hLast : s.first + 2 + 4 * n = s.last) :
    s.read = ofWindow (s.window s.first n) := by
  have hSize : s.size % 4 = 3 := by
    unfold size
    omega
  have hLevel : ∀ t : Segment, t.first + 2 + 4 * n = t.last →
      t.readFrom none #[] t.first (Nat.le_refl _) = readLevel (t.window t.first n) := by
    intro t hEnd
    rw [readsWindow (Nat.le_refl t.first) hEnd none #[] (fun _ => rfl),
      text_eq_window hEnd, readLevel]
    cases readItems (t.window t.first n).text none (t.window t.first n) with
    | error error => rfl
    | ok items => exact congrArg Except.ok items.treeBehind_nil
  rw [read, level, if_pos hSize, ofWindow, ← wrapsWhole_eq_window hLast]
  cases s.wrapsWhole with
  | error error => rfl
  | ok wraps =>
      cases wraps with
      | false => exact hLevel s hLast
      | true =>
          rw [← window_strip hLast]
          exact hLevel s.strip hLast

end Segment

/-! ### Ranges of tokens -/

theorem map_token_eq_extract {tokens : Array Token} (start : Nat) {stop : Nat}
    (hStop : stop < tokens.size) :
    (List.range' start (stop + 1 - start)).map
        (Segment.token { tokens := tokens, first := start, last := stop }) =
      tokens.toList.extract start (stop + 1) := by
  have hToken : ∀ i, Segment.token { tokens := tokens, first := start, last := stop } i =
      tokens.getD i [] := by
    intro i
    simp [Segment.token, Segment.tokenBehindCut]
  apply List.ext_getElem
  · simp only [List.length_map, List.length_range', List.extract, List.length_take,
      List.length_drop, Array.length_toList]
    omega
  · intro k hRange hExtract
    simp only [List.length_map, List.length_range'] at hRange
    have hInside : start + k < tokens.size := by omega
    simp [hToken, List.extract, Array.getD, hInside]

theorem parseTokens_eq_ofTokens {tokens : Array Token} {start stop : Nat}
    (hOrder : start ≤ stop) (hStop : stop < tokens.size) :
    parseTokens tokens start stop = ofTokens (tokens.toList.extract start (stop + 1)) := by
  have hShown := map_token_eq_extract start hStop
  have hLength := congrArg List.length hShown
  rw [List.length_map, List.length_range'] at hLength
  rw [parseTokens, if_pos ⟨hOrder, hStop⟩, ofTokens]
  by_cases hCount : (stop + 1 - start) % 4 = 3
  · obtain ⟨n, hLast⟩ : ∃ n, start + 2 + 4 * n = stop := ⟨(stop + 1 - start) / 4, by omega⟩
    have hRange : stop + 1 - start = 4 * n + 3 := by omega
    rw [hRange, ← Segment.tokens_window] at hShown
    rw [← hShown, Window.ofTokens?_tokens]
    exact Segment.read_eq_ofWindow hLast
  · have hNone : Window.ofTokens? (tokens.toList.extract start (stop + 1)) = none := by
      rw [Option.eq_none_iff_forall_ne_some]
      intro w hWindow
      have hWhole := exists_window_iff.mp ⟨w, hWindow⟩
      omega
    rw [hNone, ← hShown, List.length_map, List.length_range', Segment.read, Segment.level,
      if_neg (by exact hCount)]
    rfl

theorem parseTokens_whole {tokens : List Token} (hTokens : tokens ≠ []) :
    parseTokens tokens.toArray 0 (tokens.length - 1) = ofTokens tokens := by
  have hPositive := List.length_pos_iff.mpr hTokens
  have hEnd : tokens.length - 1 + 1 = tokens.length := by omega
  rw [parseTokens_eq_ofTokens (Nat.zero_le _) (by rw [List.size_toArray]; omega), hEnd,
    List.extract, Nat.sub_zero, List.drop_zero, List.take_length]

end Filter
end RecordFilter

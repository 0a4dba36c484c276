/-
Brackets around windows.

`Window.enclose` glues one pair of brackets to the two ends of a window and is
the inverse of `Window.strip`.  A window is balanced when no slot closes a
bracket that is not open and none is open at the end; `closing_enclose` says
that the pair around a balanced window closes exactly at its end, whatever
follows, and `enclose_strip_of_closing` that whatever is found to be closed has
a pair of its own at its ends.
-/
import Mathlib.Data.List.Basic
import RecordFilter.Proofs.Filter.Grammar

namespace RecordFilter
namespace Filter

/-! ### Runs of brackets -/

theorem leadingRun_cons (token : Token) :
    leadingRun (leftBracket :: token) = leadingRun token + 1 := by
  simp [leadingRun]

theorem trailingRun_append (token : Token) :
    trailingRun (token ++ [rightBracket]) = trailingRun token + 1 := by
  simp [trailingRun]

theorem leadingRun_pos_iff (token : Token) :
    0 < leadingRun token ↔ token.head? = some leftBracket := by
  cases token with
  | nil => simp [leadingRun]
  | cons c cs =>
      by_cases hBracket : c = leftBracket
      · simp [leadingRun, hBracket]
      · simp [leadingRun, hBracket]

theorem trailingRun_pos_iff (token : Token) :
    0 < trailingRun token ↔ token.getLast? = some rightBracket := by
  rcases List.eq_nil_or_concat token with rfl | ⟨cs, c, rfl⟩
  · simp [trailingRun]
  · by_cases hBracket : c = rightBracket
    · simp [trailingRun, hBracket]
    · simp [trailingRun, hBracket]

theorem cons_tail_of_leadingRun {token : Token} (hRun : 0 < leadingRun token) :
    leftBracket :: token.tail = token := by
  have hHead := (leadingRun_pos_iff token).mp hRun
  exact List.cons_head?_tail hHead

theorem dropLast_append_of_trailingRun {token : Token} (hRun : 0 < trailingRun token) :
    token.dropLast ++ [rightBracket] = token := by
  have hLast := (trailingRun_pos_iff token).mp hRun
  exact List.dropLast_append_getLast? rightBracket hLast

/-! ### Brackets around slots and windows -/

namespace Slot

def addOpening (slot : Slot) : Slot := { slot with field := leftBracket :: slot.field }

def addClosing (slot : Slot) : Slot := { slot with value := slot.value ++ [rightBracket] }

@[simp] theorem opened_addOpening (slot : Slot) :
    slot.addOpening.opened = slot.opened + 1 :=
  leadingRun_cons slot.field

@[simp] theorem closed_addOpening (slot : Slot) : slot.addOpening.closed = slot.closed := rfl

@[simp] theorem opened_addClosing (slot : Slot) : slot.addClosing.opened = slot.opened := rfl

@[simp] theorem closed_addClosing (slot : Slot) :
    slot.addClosing.closed = slot.closed + 1 :=
  trailingRun_append slot.value

end Slot

namespace Window

def slots (w : Window) : List Slot := w.first :: w.links.map Prod.snd

def append (w : Window) (after : List Link) : Window := ⟨w.first, w.links ++ after⟩

def closeLinks : List Link → List Link
  | [] => []
  | [(token, slot)] => [(token, slot.addClosing)]
  | link :: next :: links => link :: closeLinks (next :: links)

def addOpening (w : Window) : Window := ⟨w.first.addOpening, w.links⟩

def addClosing (w : Window) : Window :=
  match w.links with
  | [] => ⟨w.first.addClosing, []⟩
  | link :: links => ⟨w.first, closeLinks (link :: links)⟩

def enclose (w : Window) : Window := w.addClosing.addOpening

theorem addClosing_extend (slot : Slot) (token : Token) (w : Window) :
    (w.extend slot token).addClosing = w.addClosing.extend slot token := by
  obtain ⟨first, links⟩ := w
  cases links with
  | nil => rfl
  | cons link links => rfl

theorem tokens_extend (slot : Slot) (token : Token) (w : Window) :
    (w.extend slot token).tokens = slot.tokens ++ token :: w.tokens := by
  simp [extend, tokens, linkTokens]

theorem last_extend (slot : Slot) (token : Token) (w : Window) :
    (w.extend slot token).last = w.last := by
  obtain ⟨first, links⟩ := w
  cases links with
  | nil => rfl
  | cons link links => simp [extend, last, List.getLast?_cons]

theorem slotInduction {motive : Window → Prop} (single : ∀ slot, motive ⟨slot, []⟩)
    (extend : ∀ slot token w, motive w → motive (w.extend slot token)) (w : Window) :
    motive w := by
  obtain ⟨first, links⟩ := w
  induction links generalizing first with
  | nil => exact single first
  | cons link links ih => exact extend first link.1 ⟨link.2, links⟩ (ih link.2)

/-! ### Enclosing and stripping -/

theorem tokens_addOpening (w : Window) : w.addOpening.tokens = openFirst w.tokens := rfl

theorem tokens_addClosing (w : Window) : w.addClosing.tokens = closeLast w.tokens := by
  induction w using slotInduction with
  | single slot => rfl
  | extend slot token w ih =>
      rw [addClosing_extend, tokens_extend, tokens_extend, ih]
      rfl

theorem tokens_enclose (w : Window) : w.enclose.tokens = Filter.enclose w.tokens := by
  rw [enclose, tokens_addOpening, tokens_addClosing]
  rfl

theorem stripLast_closeLinks (links : List Link) : stripLast (closeLinks links) = links := by
  induction links with
  | nil => rfl
  | cons link links ih =>
      cases links with
      | nil => simp [closeLinks, stripLast, Slot.addClosing]
      | cons next more =>
          cases hMore : closeLinks (next :: more) with
          | nil => cases more <;> simp [closeLinks] at hMore
          | cons first rest =>
              rw [hMore] at ih
              rw [closeLinks, hMore, stripLast, ih]

theorem strip_enclose (w : Window) : w.enclose.strip = w := by
  obtain ⟨first, links⟩ := w
  cases links with
  | nil => simp [enclose, addClosing, addOpening, strip, Slot.addClosing, Slot.addOpening]
  | cons link links =>
      have hLinks := stripLast_closeLinks (link :: links)
      cases hClosed : closeLinks (link :: links) with
      | nil => cases links <;> simp [closeLinks] at hClosed
      | cons next more =>
          rw [hClosed] at hLinks
          simp [enclose, addClosing, addOpening, strip, hClosed, hLinks, Slot.addOpening]

theorem closeLinks_stripLast {links : List Link} {link : Link}
    (hLast : links.getLast? = some link) (hClosed : 0 < link.2.closed) :
    closeLinks (stripLast links) = links := by
  induction links with
  | nil => rfl
  | cons head rest ih =>
      cases rest with
      | nil =>
          have hSame : head = link := by simpa using hLast
          subst hSame
          have hValue := dropLast_append_of_trailingRun hClosed
          simp [stripLast, closeLinks, Slot.addClosing, hValue]
      | cons next more =>
          have hRest := ih (by simpa [List.getLast?_cons_cons] using hLast)
          cases hStripped : stripLast (next :: more) with
          | nil => cases more <;> simp [stripLast] at hStripped
          | cons first others =>
              rw [hStripped] at hRest
              rw [stripLast, hStripped, closeLinks, hRest]

theorem enclose_strip {w : Window} (hOpened : 0 < w.first.opened)
    (hClosed : 0 < w.last.closed) : w.strip.enclose = w := by
  obtain ⟨first, links⟩ := w
  have hField : leftBracket :: first.field.tail = first.field :=
    cons_tail_of_leadingRun hOpened
  cases links with
  | nil =>
      have hValue : first.value.dropLast ++ [rightBracket] = first.value :=
        dropLast_append_of_trailingRun hClosed
      simp [enclose, addClosing, addOpening, strip, Slot.addClosing, Slot.addOpening,
        hField, hValue]
  | cons link links =>
      have hLast : (link :: links).getLast? = some ((link :: links).getLast (by simp)) :=
        List.getLast?_eq_some_getLast (by simp)
      have hLinks := closeLinks_stripLast hLast (by simpa [last, hLast] using hClosed)
      cases hStripped : stripLast (link :: links) with
      | nil => cases links <;> simp [stripLast] at hStripped
      | cons next more =>
          rw [hStripped] at hLinks
          simp [enclose, addClosing, addOpening, strip, hStripped, hLinks, Slot.addOpening,
            hField]

/-! ### Depth -/

/-- The depth behind some slots that are entered at a depth; there is none if one of
them closes more brackets than are open. -/
def depthAfter (depth : Nat) : List Slot → Option Nat
  | [] => some depth
  | slot :: slots =>
      if depth + slot.opened < slot.closed then none
      else depthAfter (depth + slot.opened - slot.closed) slots

/-- A window closes exactly the brackets that it opens, each behind its opening. -/
def IsBalanced (w : Window) : Prop := depthAfter 0 w.slots = some 0

theorem depthAfter_append (depth : Nat) (left right : List Slot) :
    depthAfter depth (left ++ right) =
      (depthAfter depth left).bind fun inner => depthAfter inner right := by
  induction left generalizing depth with
  | nil => rfl
  | cons slot slots ih =>
      rw [List.cons_append, depthAfter, depthAfter]
      split
      · rfl
      · exact ih _

theorem slots_extend (slot : Slot) (token : Token) (w : Window) :
    (w.extend slot token).slots = slot :: w.slots := rfl

theorem slots_append (w next : Window) (token : Token) :
    (w.append ((token, next.first) :: next.links)).slots = w.slots ++ next.slots := by
  simp [append, slots]

theorem IsBalanced.append {w next : Window} (hFirst : w.IsBalanced) (hNext : next.IsBalanced)
    (token : Token) : (w.append ((token, next.first) :: next.links)).IsBalanced := by
  unfold IsBalanced at *
  rw [slots_append, depthAfter_append, hFirst]
  exact hNext

/-! ### Where a bracket closes -/

/-- A bracket that is open throughout a window and closed at its end is closed there
and not before. -/
theorem closingFrom_addClosing {depth : Nat} {w : Window}
    (hDepth : depthAfter depth w.slots = some 0) (after : List Link) :
    closingFrom (depth + 1) w.addClosing.first (w.addClosing.links ++ after) =
      .closed w.addClosing after := by
  -- The open bracket adds one to every depth up to the last slot, which closes one more.
  induction w using slotInduction generalizing depth with
  | single slot =>
      simp only [slots, List.map_nil, depthAfter, Option.ite_none_left_eq_some,
        Option.some.injEq] at hDepth
      refine closingFrom_eq_closed_iff.mpr (.inl ⟨?_, rfl, rfl⟩)
      simp only [addClosing, Slot.opened_addClosing, Slot.closed_addClosing]
      omega
  | extend slot token w ih =>
      simp only [slots_extend, depthAfter, Option.ite_none_left_eq_some] at hDepth
      obtain ⟨hOver, hRest⟩ := hDepth
      have hInner := ih hRest
      have hNext : depth + 1 + slot.opened - slot.closed =
          depth + slot.opened - slot.closed + 1 := by omega
      rw [addClosing_extend]
      refine closingFrom_eq_closed_iff.mpr (.inr ⟨?_, token, _, _, w.addClosing, rfl, rfl, ?_⟩)
      · change slot.closed < depth + 1 + slot.opened
        omega
      · change closingFrom (depth + 1 + slot.opened - slot.closed) _ _ = _
        rw [hNext]
        exact hInner

/-- An opening bracket in front of a window counts like one that is open before it. -/
theorem closingFrom_addOpening {depth : Nat} {w inside : Window} {after : List Link}
    (hClosed : closingFrom (depth + 1) w.first w.links = .closed inside after) :
    closingFrom depth w.addOpening.first w.addOpening.links =
      .closed inside.addOpening after := by
  have hShift : depth + (w.first.opened + 1) = depth + 1 + w.first.opened := by omega
  rw [closingFrom_eq_closed_iff] at hClosed ⊢
  simp only [addOpening, Slot.opened_addOpening, Slot.closed_addOpening, hShift]
  rcases hClosed with ⟨hEqual, rfl, hAfter⟩ | ⟨hOpen, token, next, rest, inner, hLinks, rfl, hRest⟩
  · exact .inl ⟨hEqual, rfl, hAfter⟩
  · exact .inr ⟨hOpen, token, next, rest, inner, hLinks, rfl, hRest⟩

theorem addOpening_injective {w v : Window} (hSame : w.addOpening = v.addOpening) : w = v := by
  obtain ⟨⟨field, operator, value⟩, links⟩ := w
  obtain ⟨⟨field', operator', value'⟩, links'⟩ := v
  cases hSame
  rfl

theorem closingFrom_of_addOpening {depth : Nat} {w inside : Window} {after : List Link}
    (hClosed : closingFrom depth w.addOpening.first w.addOpening.links =
      .closed inside.addOpening after) :
    closingFrom (depth + 1) w.first w.links = .closed inside after := by
  have hShift : depth + (w.first.opened + 1) = depth + 1 + w.first.opened := by omega
  rw [closingFrom_eq_closed_iff] at hClosed ⊢
  simp only [addOpening, Slot.opened_addOpening, Slot.closed_addOpening, hShift] at hClosed
  rcases hClosed with
    ⟨hEqual, hInside, hAfter⟩ | ⟨hOpen, token, next, rest, inner, hLinks, hInside, hRest⟩
  · have hSame : inside = ⟨w.first, []⟩ := addOpening_injective hInside
    exact .inl ⟨hEqual, hSame, hAfter⟩
  · have hSame : inside = inner.extend w.first token := addOpening_injective hInside
    exact .inr ⟨hOpen, token, next, rest, inner, hLinks, hSame, hRest⟩

/-- The pair of brackets around a balanced window closes at its end, whatever follows. -/
theorem closing_enclose {w : Window} (hBalanced : w.IsBalanced) (after : List Link) :
    (w.enclose.append after).closing = .closed w.enclose after :=
  closingFrom_addOpening (w := w.addClosing.append after)
    (closingFrom_addClosing hBalanced after)

/-- What holds of a slot that closes all open brackets, and of a part with one more slot
in front that leaves some open, holds of the part up to where a bracket closes. -/
theorem closingFrom_induction {motive : Nat → Window → Prop}
    (here : ∀ depth slot, depth + slot.opened = slot.closed → motive depth ⟨slot, []⟩)
    (later : ∀ depth slot token inner, slot.closed < depth + slot.opened →
      motive (depth + slot.opened - slot.closed) inner → motive depth (inner.extend slot token))
    {depth : Nat} {slot : Slot} {links after : List Link} {inside : Window}
    (hClosed : closingFrom depth slot links = .closed inside after) : motive depth inside := by
  induction links generalizing depth slot inside with
  | nil =>
      rcases closingFrom_eq_closed_iff.mp hClosed with
        ⟨hEqual, rfl, -⟩ | ⟨-, token, next, rest, inner, hLinks, -, -⟩
      · exact here depth slot hEqual
      · cases hLinks
  | cons link links ih =>
      rcases closingFrom_eq_closed_iff.mp hClosed with
        ⟨hEqual, rfl, -⟩ | ⟨hOpen, token, next, rest, inner, hLinks, rfl, hRest⟩
      · exact here depth slot hEqual
      · cases hLinks
        exact later depth slot token inner hOpen (ih hRest)

theorem isBalanced_of_closing {w inside : Window} {after : List Link}
    (hClosing : w.closing = .closed inside after) : inside.IsBalanced := by
  refine closingFrom_induction (motive := fun depth v => depthAfter depth v.slots = some 0)
    ?_ ?_ hClosing
  · intro depth slot hEqual
    simp [slots, depthAfter, hEqual]
  · intro depth slot token inner hOpen hInner
    rw [slots_extend, depthAfter, if_neg (by omega)]
    exact hInner

theorem closed_last_of_closing {w inside : Window} {after : List Link}
    (hOpened : 0 < w.first.opened) (hClosing : w.closing = .closed inside after) :
    0 < inside.last.closed := by
  have hFirst := (closingFrom_closed hClosing).1
  refine closingFrom_induction
    (motive := fun depth v => 0 < depth + v.first.opened → 0 < v.last.closed)
    ?_ ?_ hClosing ?_
  · intro depth slot hEqual hPositive
    change 0 < depth + slot.opened at hPositive
    change 0 < slot.closed
    omega
  · intro depth slot token inner hOpen hInner _
    rw [last_extend]
    exact hInner (by omega)
  · rw [hFirst]
    omega

theorem enclose_strip_of_closing {w inside : Window} {after : List Link}
    (hOpened : 0 < w.first.opened) (hClosing : w.closing = .closed inside after) :
    inside.strip.enclose = inside := by
  have hFirst := (closingFrom_closed hClosing).1
  have hLast := closed_last_of_closing hOpened hClosing
  exact enclose_strip (by rw [hFirst]; exact hOpened) hLast

theorem append_of_closing {w inside : Window} {after : List Link}
    (hClosing : w.closing = .closed inside after) : inside.append after = w := by
  obtain ⟨hFirst, hLinks⟩ := closingFrom_closed hClosing
  simp only [append, hFirst, ← hLinks]

theorem IsBalanced.enclose {w : Window} (hBalanced : w.IsBalanced) :
    w.enclose.IsBalanced :=
  isBalanced_of_closing (closing_enclose hBalanced [])

/-! ### Parts of balanced windows -/

theorem exists_closed_of_depthAfter {depth : Nat} {w : Window}
    (hDepth : depthAfter depth w.slots = some 0) :
    ∃ inside after, closingFrom depth w.first w.links = .closed inside after := by
  induction w using slotInduction generalizing depth with
  | single slot =>
      simp only [slots, List.map_nil, depthAfter, Option.ite_none_left_eq_some,
        Option.some.injEq] at hDepth
      have hEqual : depth + slot.opened = slot.closed := by omega
      exact ⟨_, _, closingFrom_eq_closed_iff.mpr (.inl ⟨hEqual, rfl, rfl⟩)⟩
  | extend slot token w ih =>
      simp only [slots_extend, depthAfter, Option.ite_none_left_eq_some] at hDepth
      obtain ⟨hOver, hRest⟩ := hDepth
      by_cases hEqual : depth + slot.opened = slot.closed
      · exact ⟨_, _, closingFrom_eq_closed_iff.mpr (.inl ⟨hEqual, rfl, rfl⟩)⟩
      · have hOpen : slot.closed < depth + slot.opened := by omega
        obtain ⟨inner, after, hInner⟩ := ih hRest
        exact ⟨_, _, closingFrom_eq_closed_iff.mpr
          (.inr ⟨hOpen, token, w.first, w.links, inner, rfl, rfl, hInner⟩)⟩

theorem IsBalanced.exists_closing {w : Window} (hBalanced : w.IsBalanced) :
    ∃ inside after, w.closing = .closed inside after :=
  exists_closed_of_depthAfter hBalanced

theorem IsBalanced.rest {w inside : Window} {token : Token} {next : Slot} {links : List Link}
    (hBalanced : w.IsBalanced) (hClosing : w.closing = .closed inside ((token, next) :: links)) :
    (⟨next, links⟩ : Window).IsBalanced := by
  have hInside := isBalanced_of_closing hClosing
  have hSlots := slots_append inside ⟨next, links⟩ token
  rw [append_of_closing hClosing] at hSlots
  unfold IsBalanced at *
  rw [hSlots, depthAfter_append, hInside] at hBalanced
  exact hBalanced

/-- If a bracket that is open before a window is closed at its end and not before, the
window without that closing bracket is balanced. -/
theorem depthAfter_of_closingFrom_addClosing {depth : Nat} {w : Window} {after : List Link}
    (hClosed : closingFrom (depth + 1) w.addClosing.first (w.addClosing.links ++ after) =
      .closed w.addClosing after) : depthAfter depth w.slots = some 0 := by
  induction w using slotInduction generalizing depth with
  | single slot =>
      rcases closingFrom_eq_closed_iff.mp hClosed with
        ⟨hEqual, -, -⟩ | ⟨-, token, next, rest, inner, -, hInside, -⟩
      · simp only [addClosing, Slot.opened_addClosing, Slot.closed_addClosing] at hEqual
        have hOver : ¬ depth + slot.opened < slot.closed := by omega
        have hNone : depth + slot.opened - slot.closed = 0 := by omega
        simp only [slots, List.map_nil, depthAfter, if_neg hOver, hNone]
      · cases hInside
  | extend slot token w ih =>
      rw [addClosing_extend] at hClosed
      rcases closingFrom_eq_closed_iff.mp hClosed with
        ⟨-, hInside, -⟩ | ⟨hOpen, token, next, rest, inner, hLinks, hInside, hRest⟩
      · cases hInside
      · change slot.closed < depth + 1 + slot.opened at hOpen
        cases hLinks
        obtain ⟨innerFirst, innerLinks⟩ := inner
        cases hInside
        change closingFrom (depth + 1 + slot.opened - slot.closed) w.addClosing.first
          (w.addClosing.links ++ after) = .closed w.addClosing after at hRest
        have hNext : depth + 1 + slot.opened - slot.closed =
            depth + slot.opened - slot.closed + 1 := by omega
        rw [hNext] at hRest
        rw [slots_extend, depthAfter, if_neg (by omega)]
        exact ih hRest

theorem isBalanced_strip_of_closing {w inside : Window} {after : List Link}
    (hOpened : 0 < w.first.opened) (hClosing : w.closing = .closed inside after) :
    inside.strip.IsBalanced := by
  have hEnclose := enclose_strip_of_closing hOpened hClosing
  rw [← append_of_closing hClosing, ← hEnclose] at hClosing
  have hOpening := closingFrom_of_addOpening (w := inside.strip.addClosing.append after) hClosing
  exact depthAfter_of_closingFrom_addClosing hOpening

end Window
end Filter
end RecordFilter

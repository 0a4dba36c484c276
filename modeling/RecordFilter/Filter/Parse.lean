/-
Filters from text.

A level is a run of items joined by one connective: an item is a comparison or a
level in brackets.  A level of one item is that item.  The items are read from
left to right and the first defect is reported; inside brackets it is wrapped
with the span of the level around them.

Reading ends because there is less to read inside brackets, where one of them is taken off,
and behind an item (`unread_level_lt`, `unread_lt`).
-/
import RecordFilter.Filter.Segment

namespace RecordFilter
namespace Filter

namespace Segment

def itemEnd (s : Segment) (i : Nat) : Except GrammarError Nat :=
  if 0 < s.openedAt i then s.closing i else .ok (i + 2)

theorem lt_itemEnd {s : Segment} {i j : Nat} (hEnd : s.itemEnd i = .ok j) : i < j := by
  unfold itemEnd at hEnd
  split at hEnd
  · obtain ⟨⟨slots, hSlots⟩, -⟩ := closingFrom_bounds hEnd
    omega
  · cases hEnd
    omega

/-- The tree of a level: the group of its items under the connective between them, or its
only item if there is none. -/
def treeOf (s : Segment) (logic : Option Logic) (items : Array Filter) :
    Except GrammarError Filter :=
  match logic with
  | some logic => .ok (.group logic items.toList)
  | none =>
      match items.back? with
      | some only => .ok only
      | none => .error (.emptyCondition s.text)

theorem unread_level_lt {s inner : Segment} {i j : Nat} (hFirst : s.first ≤ i)
    (hOpened : 0 < s.openedAt i) (hEnd : s.itemEnd i = .ok j)
    (hLevel : (s.sub i j).level = .ok inner) : inner.unread inner.first < s.unread i := by
  rw [itemEnd, if_pos hOpened] at hEnd
  obtain ⟨⟨slots, hSlots⟩, hLast⟩ := closingFrom_bounds hEnd
  have hField : (s.sub i j).token i = s.token i :=
    token_sub hFirst hLast (Nat.le_refl i) (by omega)
  have hSome : s.token i ≠ [] := by
    intro hEmpty
    simp [openedAt, leadingRun, hEmpty] at hOpened
  have hStripped : (s.sub i j).strip.unread i < (s.sub i j).unread i :=
    unread_strip_lt (s := s.sub i j) (by change i < j; omega) (by exact hField ▸ hSome)
  have hInside : (s.sub i j).unread i ≤ s.unread i :=
    unread_sub_le hFirst hLast (Nat.le_refl i)
  rw [level_of_closing hFirst hOpened hEnd] at hLevel
  cases hLevel
  exact Nat.lt_of_lt_of_le hStripped hInside

/-- The tree of a level from the item at position `i` on.  `logic` is its connective as far as
it is known, and `items` are the trees of the items in front. -/
def readFrom (s : Segment) (logic : Option Logic) (items : Array Filter) (i : Nat)
    (hFirst : s.first ≤ i) : Except GrammarError Filter :=
  if _hMore : i + 2 ≤ s.last then
    match hEnd : s.itemEnd i with
    | .error error => .error error
    | .ok j =>
        have hLater : i < j + 2 := Nat.lt_add_right 2 (lt_itemEnd hEnd)
        let item : Except GrammarError Filter :=
          if _hOpened : 0 < s.openedAt i then
            match _hLevel : (s.sub i j).level with
            | .error source => .error (.nested s.text source)
            | .ok inner =>
                match inner.readFrom none #[] inner.first (Nat.le_refl _) with
                | .error source => .error (.nested s.text source)
                | .ok tree => .ok tree
          else s.leaf i
        match item with
        | .error error => .error error
        | .ok tree =>
            match s.logicAt logic (j + 1) with
            | .error error => .error error
            | .ok logic =>
                s.readFrom logic (items.push tree) (j + 2)
                  (Nat.le_trans hFirst (Nat.le_of_lt hLater))
  else s.treeOf logic items
termination_by s.unread i
decreasing_by
  · exact unread_level_lt hFirst _hOpened hEnd _hLevel
  · exact unread_lt (by omega) hLater

def read (s : Segment) : Except GrammarError Filter :=
  match s.level with
  | .error error => .error error
  | .ok level => level.readFrom none #[] level.first (Nat.le_refl _)

end Segment

/-- The filter that the tokens from `start` to `stop` denote, ends included. -/
def parseTokens (tokens : Array Token) (start stop : Nat) : Except GrammarError Filter :=
  if start ≤ stop ∧ stop < tokens.size then
    Segment.read { tokens := tokens, first := start, last := stop }
  else .error (.tokenCount "" 0)

def parseRange (tokens : List String) (start stop : Nat) : Except GrammarError Filter :=
  parseTokens (tokens.map String.toList).toArray start stop

/-- The filter that a text denotes; the empty text denotes none. -/
def parse (input : String) : Except GrammarError (Option Filter) :=
  if input = "" then .ok none
  else
    match tokenize input with
    | .error error => .error error
    | .ok tokens =>
        match parseTokens tokens.toArray 0 (tokens.length - 1) with
        | .error error => .error error
        | .ok filter => .ok (some filter)

def parseOption : Option String → Except GrammarError (Option Filter)
  | none => .ok none
  | some input => parse input

def parseRequired (input : String) : Except GrammarError Filter :=
  match parse input with
  | .error error => .error error
  | .ok none => .error (.emptyCondition "")
  | .ok (some filter) => .ok filter

end Filter
end RecordFilter

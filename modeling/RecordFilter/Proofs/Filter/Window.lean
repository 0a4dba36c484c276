/-
Windows of a filter text.

The tokens of a bracket level come in slots of three, a field, an operator and a
value, joined by one connective token each.  A window is such a run of slots, on which
proofs go by induction; a segment of the token array shows one to the reader.
`Window.closing` finds the slot at which the brackets opened at the front of a window are
all closed again, and `strip` takes one pair of brackets off the two ends.
-/
import RecordFilter.Filter.Token

namespace RecordFilter
namespace Filter

/-! ### Slots -/

/-- The three tokens of a comparison. -/
structure Slot where
  field : Token
  operator : Token
  value : Token
deriving DecidableEq, Repr, Inhabited

def Slot.opened (slot : Slot) : Nat := leadingRun slot.field

def Slot.closed (slot : Slot) : Nat := trailingRun slot.value

def Slot.tokens (slot : Slot) : List Token := [slot.field, slot.operator, slot.value]

/-- The comparison that a slot denotes.  Brackets that are left at the end of its
value were never opened. -/
def Slot.leaf (slot : Slot) : Except GrammarError Filter :=
  if slot.field = [] ∨ slot.operator = [] ∨ slot.value = [] then
    .error (.emptyCondition (spanText slot.tokens))
  else if 0 < slot.closed then
    .error (.unbalancedBrackets (spanText slot.tokens))
  else
    .ok (.leaf (String.ofList slot.field) (String.ofList slot.operator)
      (.text (String.ofList slot.value)))

/-! ### Windows -/

abbrev Link := Token × Slot

/-- A run of slots joined by connective tokens. -/
structure Window where
  first : Slot
  links : List Link
deriving DecidableEq, Repr, Inhabited

namespace Window

def linkTokens : List Link → List Token
  | [] => []
  | (token, slot) :: links => token :: slot.tokens ++ linkTokens links

def tokens (w : Window) : List Token := w.first.tokens ++ linkTokens w.links

def text (w : Window) : String := spanText w.tokens

/-- The window that a list of tokens forms; there is one exactly when their
number is three more than a multiple of four. -/
def ofTokens? : List Token → Option Window
  | [field, operator, value] => some ⟨⟨field, operator, value⟩, []⟩
  | field :: operator :: value :: token :: tokens =>
      (ofTokens? tokens).map fun w => ⟨⟨field, operator, value⟩, (token, w.first) :: w.links⟩
  | _ => none

def stripLast : List Link → List Link
  | [] => []
  | [(token, slot)] => [(token, ⟨slot.field, slot.operator, slot.value.dropLast⟩)]
  | link :: next :: links => link :: stripLast (next :: links)

/-- The window without the first character of its first token and the last
character of its last one. -/
def strip (w : Window) : Window :=
  match w.links with
  | [] => ⟨⟨w.first.field.tail, w.first.operator, w.first.value.dropLast⟩, []⟩
  | link :: links =>
      ⟨⟨w.first.field.tail, w.first.operator, w.first.value⟩, stripLast (link :: links)⟩

def last (w : Window) : Slot :=
  match w.links.getLast? with
  | none => w.first
  | some link => link.2

def extend (slot : Slot) (token : Token) (w : Window) : Window :=
  ⟨slot, (token, w.first) :: w.links⟩

/-! ### Where a bracket closes -/

/-- What becomes of the brackets that are open at the front of a window. -/
inductive Closing where
  /-- They are all closed at the end of `inside`; `after` follows. -/
  | closed (inside : Window) (after : List Link)
  | overclosed (through : Window)
  | unclosed
deriving Inhabited

def Closing.extend (slot : Slot) (token : Token) : Closing → Closing
  | .closed inside after => .closed (inside.extend slot token) after
  | .overclosed through => .overclosed (through.extend slot token)
  | .unclosed => .unclosed

/-- Follows the brackets from slot to slot, `depth` of them being open before the
first one. -/
def closingFrom (depth : Nat) (slot : Slot) : List Link → Closing
  | [] =>
      if depth + slot.opened < slot.closed then .overclosed ⟨slot, []⟩
      else if depth + slot.opened = slot.closed then .closed ⟨slot, []⟩ []
      else .unclosed
  | (token, next) :: links =>
      if depth + slot.opened < slot.closed then .overclosed ⟨slot, []⟩
      else if depth + slot.opened = slot.closed then .closed ⟨slot, []⟩ ((token, next) :: links)
      else (closingFrom (depth + slot.opened - slot.closed) next links).extend slot token

section

variable {depth : Nat} {slot : Slot}

theorem closingFrom_of_lt (hOver : depth + slot.opened < slot.closed) (links : List Link) :
    closingFrom depth slot links = .overclosed ⟨slot, []⟩ := by
  cases links <;> exact if_pos hOver

theorem closingFrom_of_eq (hEqual : depth + slot.opened = slot.closed) (links : List Link) :
    closingFrom depth slot links = .closed ⟨slot, []⟩ links := by
  have hNotOver := Nat.not_lt_of_ge (Nat.le_of_eq hEqual.symm)
  cases links <;> exact (if_neg hNotOver).trans (if_pos hEqual)

theorem closingFrom_nil_of_gt (hOpen : slot.closed < depth + slot.opened) :
    closingFrom depth slot [] = .unclosed :=
  (if_neg (Nat.lt_asymm hOpen)).trans (if_neg (Nat.ne_of_gt hOpen))

theorem closingFrom_cons_of_gt {token : Token} {next : Slot} {links : List Link}
    (hOpen : slot.closed < depth + slot.opened) :
    closingFrom depth slot ((token, next) :: links) =
      (closingFrom (depth + slot.opened - slot.closed) next links).extend slot token :=
  (if_neg (Nat.lt_asymm hOpen)).trans (if_neg (Nat.ne_of_gt hOpen))

/-- The brackets open at a slot are closed by it, or it leaves some open and the
slots behind it close them. -/
theorem closingFrom_eq_closed_iff {links after : List Link} {inside : Window} :
    closingFrom depth slot links = .closed inside after ↔
      (depth + slot.opened = slot.closed ∧ inside = ⟨slot, []⟩ ∧ after = links) ∨
      (slot.closed < depth + slot.opened ∧ ∃ token next rest inner,
        links = (token, next) :: rest ∧ inside = inner.extend slot token ∧
        closingFrom (depth + slot.opened - slot.closed) next rest = .closed inner after) := by
  rcases Nat.lt_trichotomy (depth + slot.opened) slot.closed with hOver | hEqual | hOpen
  · rw [closingFrom_of_lt hOver]
    simp only [reduceCtorEq, false_iff]
    omega
  · rw [closingFrom_of_eq hEqual]
    constructor
    · intro hClosed
      cases hClosed
      exact .inl ⟨hEqual, rfl, rfl⟩
    · rintro (⟨-, rfl, rfl⟩ | ⟨hOpen, -⟩)
      · rfl
      · omega
  · have hNotEqual : ¬depth + slot.opened = slot.closed := Nat.ne_of_gt hOpen
    cases links with
    | nil => simp [closingFrom_nil_of_gt hOpen, hNotEqual]
    | cons link rest =>
        obtain ⟨token, next⟩ := link
        simp only [closingFrom_cons_of_gt hOpen, hNotEqual, hOpen, false_and, false_or, true_and]
        constructor
        · intro hClosed
          cases hRest : closingFrom (depth + slot.opened - slot.closed) next rest with
          | closed inner others =>
              rw [hRest] at hClosed
              cases hClosed
              exact ⟨token, next, rest, inner, rfl, rfl, hRest⟩
          | overclosed through =>
              rw [hRest] at hClosed
              cases hClosed
          | unclosed =>
              rw [hRest] at hClosed
              cases hClosed
        · rintro ⟨token, next, rest, inner, hLinks, rfl, hRest⟩
          cases hLinks
          rw [hRest]
          rfl

end

def closing (w : Window) : Closing := closingFrom 0 w.first w.links

def wrapsWhole (w : Window) : Except GrammarError Bool :=
  if 0 < w.first.opened ∧ 0 < w.last.closed then
    match w.closing with
    | .closed _ after => .ok after.isEmpty
    | .overclosed through => .error (.unbalancedBrackets through.text)
    | .unclosed => .error (.unbalancedBrackets w.text)
  else .ok false

/-! ### Size -/

def linksWeight : List Link → Nat
  | [] => 0
  | (_, slot) :: links => slot.field.length + 1 + linksWeight links

def weight (w : Window) : Nat := w.first.field.length + 1 + linksWeight w.links

theorem weight_extend (slot : Slot) (token : Token) (w : Window) :
    (w.extend slot token).weight = slot.field.length + 1 + w.weight := rfl

theorem linksWeight_stripLast (links : List Link) :
    linksWeight (stripLast links) = linksWeight links := by
  induction links with
  | nil => rfl
  | cons link links ih =>
      cases links with
      | nil => rfl
      | cons next more =>
          rw [stripLast, linksWeight, linksWeight, ih]

theorem weight_strip_lt {w : Window} (hOpened : 0 < w.first.opened) :
    w.strip.weight < w.weight := by
  have hField : 0 < w.first.field.length := by
    cases hEmpty : w.first.field with
    | nil => simp [Slot.opened, leadingRun, hEmpty] at hOpened
    | cons c cs => simp
  unfold strip weight
  split
  · rename_i hLinks
    simp [hLinks, linksWeight]
    omega
  · rename_i link links hLinks
    simp [hLinks, linksWeight_stripLast]
    omega

/-- The part inside the brackets and what follows make up the window, and the
part inside begins with the same slot. -/
theorem closingFrom_closed {depth : Nat} {slot : Slot} {links after : List Link}
    {inside : Window} (hClosed : closingFrom depth slot links = .closed inside after) :
    inside.first = slot ∧ links = inside.links ++ after := by
  induction links generalizing depth slot inside with
  | nil =>
      rcases closingFrom_eq_closed_iff.mp hClosed with
        ⟨-, rfl, rfl⟩ | ⟨-, token, next, rest, inner, hLinks, -, -⟩
      · exact ⟨rfl, rfl⟩
      · cases hLinks
  | cons link links ih =>
      rcases closingFrom_eq_closed_iff.mp hClosed with
        ⟨-, rfl, rfl⟩ | ⟨-, token, next, rest, inner, hLinks, rfl, hRest⟩
      · exact ⟨rfl, rfl⟩
      · cases hLinks
        obtain ⟨rfl, rfl⟩ := ih hRest
        exact ⟨rfl, rfl⟩

theorem linksWeight_append (left right : List Link) :
    linksWeight (left ++ right) = linksWeight left + linksWeight right := by
  induction left with
  | nil => simp [linksWeight]
  | cons link links ih => simp [linksWeight, ih, Nat.add_assoc]

end Window
end Filter
end RecordFilter

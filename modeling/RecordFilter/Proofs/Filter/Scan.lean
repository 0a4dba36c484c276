/-
The first defect of a balanced window.

`Window.scan` passes once over the slots and the connectives of a window, from left
to right, and keeps the connectives of the groups that are open.  The reader
descends into brackets instead, and may look far ahead for the bracket that closes
one; `agrees_readItems` says that in a balanced window it stops at the same
defect, so that its errors blame the first one.
-/
import Mathlib.Data.List.DropRight
import RecordFilter.Proofs.Filter.Reading

namespace RecordFilter
namespace Filter

/-! ### Faults -/

/-- What may be wrong where all brackets match. -/
inductive Fault where
  | incomplete (bare : Slot)
  | mixed (token : Token)

/-- An error that tells of a fault, the span around a connective apart. -/
inductive Fault.IsCause : Fault → GrammarError → Prop where
  | incomplete (bare : Slot) :
      IsCause (.incomplete bare) (.emptyCondition (spanText bare.tokens))
  | mixed (token : Token) (span : String) :
      IsCause (.mixed token) (.mixedLogic (String.ofList token) span)

theorem Fault.IsCause.ne_unbalancedBrackets {fault : Fault} {cause : GrammarError}
    (hCause : fault.IsCause cause) (span : String) : cause ≠ .unbalancedBrackets span := by
  rintro rfl
  cases hCause

theorem Fault.IsCause.ne_tokenCount {fault : Fault} {cause : GrammarError}
    (hCause : fault.IsCause cause) (span : String) (count : Nat) :
    cause ≠ .tokenCount span count := by
  rintro rfl
  cases hCause

/-! ### Slots -/

/-- The connectives of the open groups, the innermost first, as far as they are known. -/
abbrev Groups := List (Option Logic)

namespace Slot

def bare (slot : Slot) : Slot where
  field := slot.field.dropWhile fun c => c = leftBracket
  operator := slot.operator
  value := slot.value.rdropWhile fun c => c = rightBracket

def IsIncomplete (slot : Slot) : Prop :=
  slot.field = [] ∨ slot.operator = [] ∨ slot.value = []

instance (slot : Slot) : Decidable slot.IsIncomplete :=
  inferInstanceAs (Decidable (_ ∨ _ ∨ _))

def enter (slot : Slot) (groups : Groups) : Groups :=
  (List.replicate slot.opened none ++ groups).drop slot.closed

def scan (slot : Slot) (groups : Groups) : Except Fault Groups :=
  if slot.bare.IsIncomplete then .error (.incomplete slot.bare) else .ok (slot.enter groups)

theorem bare_addOpening (slot : Slot) : slot.addOpening.bare = slot.bare := by
  simp [bare, addOpening]

theorem bare_addClosing (slot : Slot) : slot.addClosing.bare = slot.bare := by
  simp [bare, addClosing]

theorem enter_addOpening (slot : Slot) (groups : Groups) :
    slot.addOpening.enter groups = slot.enter (none :: groups) := by
  simp [enter, List.replicate_succ']

theorem enter_addClosing (slot : Slot) (groups : Groups) :
    slot.addClosing.enter groups = (slot.enter groups).tail := by
  simp [enter]

theorem scan_addOpening (slot : Slot) (groups : Groups) :
    slot.addOpening.scan groups = slot.scan (none :: groups) := by
  rw [scan, scan, bare_addOpening, enter_addOpening]

theorem scan_addClosing (slot : Slot) (groups : Groups) :
    slot.addClosing.scan groups = (slot.scan groups).map List.tail := by
  rw [scan, scan, bare_addClosing, enter_addClosing]
  split <;> rfl

theorem dropWhile_of_takeWhile {test : Char → Bool} {text : List Char}
    (hNone : (text.takeWhile test).length = 0) : text.dropWhile test = text := by
  have hParts := List.takeWhile_append_dropWhile (p := test) (l := text)
  rwa [List.length_eq_zero_iff.mp hNone, List.nil_append] at hParts

theorem bare_of_no_brackets {slot : Slot} (hOpened : slot.opened = 0) (hClosed : slot.closed = 0) :
    slot.bare = slot := by
  have hField := dropWhile_of_takeWhile hOpened
  have hValue := dropWhile_of_takeWhile hClosed
  obtain ⟨field, operator, value⟩ := slot
  simp only at hField hValue
  simp only [bare, List.rdropWhile, hField, hValue, List.reverse_reverse]

theorem enter_of_no_brackets {slot : Slot} (hOpened : slot.opened = 0) (hClosed : slot.closed = 0)
    (groups : Groups) : slot.enter groups = groups := by
  rw [enter, hOpened, hClosed]
  rfl

theorem leaf_of_no_brackets {slot : Slot} (hClosed : slot.closed = 0) :
    slot.leaf = if slot.IsIncomplete then .error (.emptyCondition (spanText slot.tokens))
      else .ok (.leaf (String.ofList slot.field) (String.ofList slot.operator)
        (.text (String.ofList slot.value))) := by
  have hNot : ¬ 0 < slot.closed := by omega
  rw [leaf, if_neg hNot]
  rfl

end Slot

/-! ### Windows -/

namespace Window

def scanLinks (groups : Groups) : List Link → Except Fault Groups
  | [] => .ok groups
  | (token, slot) :: links =>
      match groups with
      | [] => .ok []
      | fixed :: outer =>
          match agree? fixed token with
          | none => .error (.mixed token)
          | some logic => (slot.scan (some logic :: outer)).bind fun inner => scanLinks inner links

/-- Passes over a window with some groups open before its first slot. -/
def scan (w : Window) (groups : Groups) : Except Fault Groups :=
  (w.first.scan groups).bind fun inner => scanLinks inner w.links

theorem scanLinks_append (groups : Groups) (links after : List Link) :
    scanLinks groups (links ++ after) =
      (scanLinks groups links).bind fun inner => scanLinks inner after := by
  induction links generalizing groups with
  | nil => rfl
  | cons link links ih =>
      obtain ⟨token, slot⟩ := link
      rw [List.cons_append]
      cases groups with
      | nil => cases after <;> rfl
      | cons fixed outer =>
          simp only [scanLinks]
          cases agree? fixed token with
          | none => rfl
          | some logic =>
              simp only
              cases slot.scan (some logic :: outer) with
              | error fault => rfl
              | ok inner => exact ih inner

theorem scan_append (w : Window) (groups : Groups) (after : List Link) :
    (w.append after).scan groups = (w.scan groups).bind fun inner => scanLinks inner after := by
  rw [scan, scan, append]
  cases w.first.scan groups with
  | error fault => rfl
  | ok inner => exact scanLinks_append inner w.links after

theorem scan_addOpening (w : Window) (groups : Groups) :
    w.addOpening.scan groups = w.scan (none :: groups) := by
  rw [scan, scan, addOpening, Slot.scan_addOpening]

theorem scan_extend (slot : Slot) (token : Token) (w : Window) (groups : Groups) :
    (w.extend slot token).scan groups = (slot.scan groups).bind fun
      | [] => .ok []
      | fixed :: outer =>
          match agree? fixed token with
          | none => .error (.mixed token)
          | some logic => w.scan (some logic :: outer) := by
  rfl

theorem scan_single (slot : Slot) (groups : Groups) :
    (⟨slot, []⟩ : Window).scan groups = slot.scan groups := by
  rw [scan]
  cases slot.scan groups <;> rfl

theorem scan_addClosing (w : Window) (groups : Groups) :
    w.addClosing.scan groups = (w.scan groups).map List.tail := by
  induction w using slotInduction generalizing groups with
  | single slot =>
      rw [addClosing, scan_single, scan_single, Slot.scan_addClosing]
  | extend slot token w ih =>
      rw [addClosing_extend, scan_extend, scan_extend]
      cases slot.scan groups with
      | error fault => rfl
      | ok inner =>
          cases inner with
          | nil => rfl
          | cons fixed outer =>
              simp only [Except.bind]
              cases agree? fixed token with
              | none => rfl
              | some logic => exact ih (some logic :: outer)

theorem scan_enclose (w : Window) (groups : Groups) :
    w.enclose.scan groups = (w.scan (none :: groups)).map List.tail := by
  rw [enclose, scan_addOpening, scan_addClosing]

end Window

/-! ### Reading and passing over -/

/-- What is read agrees with what is found on passing over: the connective of the level,
or the fault that the error tells of. -/
def Agrees (read : Except GrammarError Items) (groups : Groups)
    (found : Except Fault Groups) : Prop :=
  match read with
  | .ok items => found = .ok (items.logic :: groups)
  | .error error => ∃ fault, found = .error fault ∧ fault.IsCause error.rootCause

section Reading

variable {span : String} {fixed : Option Logic} {w : Window} {groups : Groups}

theorem scan_of_closing {inside : Window} {after : List Link} (hOpened : 0 < w.first.opened)
    (hClosing : w.closing = .closed inside after) :
    w.scan groups = ((inside.strip.scan (none :: groups)).map List.tail).bind
      fun inner => Window.scanLinks inner after := by
  rw [← Window.scan_enclose, Window.enclose_strip_of_closing hOpened hClosing,
    ← Window.scan_append, Window.append_of_closing hClosing]

theorem closed_first_of_isBalanced (hBalanced : w.IsBalanced) (hOpened : ¬ 0 < w.first.opened) :
    w.first.closed = 0 := by
  rw [Window.IsBalanced, Window.slots, Window.depthAfter, Option.ite_none_left_eq_some]
    at hBalanced
  omega

theorem isBalanced_of_leaf {token : Token} {next : Slot} {links : List Link}
    (hBalanced : w.IsBalanced) (hOpened : ¬ 0 < w.first.opened)
    (hLinks : w.links = (token, next) :: links) : (⟨next, links⟩ : Window).IsBalanced := by
  have hClosed := closed_first_of_isBalanced hBalanced hOpened
  have hZero : w.first.opened = 0 := by omega
  simpa [Window.IsBalanced, Window.slots, Window.depthAfter, hLinks, hClosed, hZero]
    using hBalanced

theorem scanLinks_of_disagree {token : Token} {next : Slot} {links : List Link}
    (hAgree : agree? fixed token = none) :
    Window.scanLinks (fixed :: groups) ((token, next) :: links) = .error (.mixed token) := by
  simp only [Window.scanLinks, hAgree]

theorem scanLinks_of_agree {token : Token} {next : Slot} {links : List Link} {logic : Logic}
    (hAgree : agree? fixed token = some logic) :
    Window.scanLinks (fixed :: groups) ((token, next) :: links) =
      (⟨next, links⟩ : Window).scan (some logic :: groups) := by
  simp only [Window.scanLinks, hAgree, Window.scan]

theorem scan_of_read_inside {inside : Window} {after : List Link} {inner : Items}
    (hOpened : 0 < w.first.opened) (hClosing : w.closing = .closed inside after)
    (hInside : Agrees (.ok inner) (fixed :: groups) (inside.strip.scan (none :: fixed :: groups))) :
    w.scan (fixed :: groups) = Window.scanLinks (fixed :: groups) after := by
  rw [scan_of_closing hOpened hClosing, hInside]
  rfl

theorem scan_of_read_leaf {tree : Filter} (hBalanced : w.IsBalanced)
    (hOpened : ¬ 0 < w.first.opened) (hLeaf : w.first.leaf = .ok tree) :
    w.scan groups = Window.scanLinks groups w.links := by
  have hClosed := closed_first_of_isBalanced hBalanced hOpened
  have hZero : w.first.opened = 0 := by omega
  rw [Slot.leaf_of_no_brackets hClosed] at hLeaf
  split at hLeaf
  · cases hLeaf
  · rename_i hComplete
    rw [Window.scan, Slot.scan, Slot.bare_of_no_brackets hZero hClosed, if_neg hComplete,
      Slot.enter_of_no_brackets hZero hClosed]
    rfl

theorem agrees_readItems (hBalanced : w.IsBalanced) :
    Agrees (readItems span fixed w) groups (w.scan (fixed :: groups)) := by
  fun_induction readItems span fixed w generalizing groups with
  -- The first bracket of a balanced window is closed.
  | case1 span fixed w hOpened through hClosing
  | case2 span fixed w hOpened hClosing =>
      obtain ⟨inside, after, hClosed⟩ := hBalanced.exists_closing
      rw [hClosing] at hClosed
      cases hClosed
  -- The first item stands in brackets.
  | case3 span fixed w hOpened inside after hClosing source hInner ihInner =>
      have hInside := @ihInner (fixed :: groups)
        (Window.isBalanced_strip_of_closing hOpened hClosing)
      rw [hInner] at hInside
      obtain ⟨fault, hFault, hCause⟩ := hInside
      refine ⟨fault, ?_, hCause⟩
      rw [scan_of_closing hOpened hClosing, hFault]
      rfl
  | case4 span fixed w hOpened inside inner hInner hClosing _ ihInner =>
      have hInside := @ihInner (fixed :: groups)
        (Window.isBalanced_strip_of_closing hOpened hClosing)
      rw [hInner] at hInside
      exact scan_of_read_inside hOpened hClosing hInside
  | case5 span fixed w hOpened inside inner hInner token next links hClosing hAgree _ ihInner =>
      have hInside := @ihInner (fixed :: groups)
        (Window.isBalanced_strip_of_closing hOpened hClosing)
      rw [hInner] at hInside
      refine ⟨.mixed token, ?_, .mixed token span⟩
      rw [scan_of_read_inside hOpened hClosing hInside, scanLinks_of_disagree hAgree]
  | case6 span fixed w hOpened inside inner hInner token next links hClosing logic hAgree error
      hRest _ ihInner ihRest
  | case7 span fixed w hOpened inside inner hInner token next links hClosing logic hAgree
      others hRest _ ihInner ihRest =>
      have hInside := @ihInner (fixed :: groups)
        (Window.isBalanced_strip_of_closing hOpened hClosing)
      rw [hInner] at hInside
      have hMore := @ihRest groups (hBalanced.rest hClosing)
      rw [hRest] at hMore
      rw [scan_of_read_inside hOpened hClosing hInside, scanLinks_of_agree hAgree]
      exact hMore
  -- The first item is a comparison.
  | case8 span fixed w hOpened error hLeaf =>
      have hClosed := closed_first_of_isBalanced hBalanced hOpened
      have hZero : w.first.opened = 0 := by omega
      rw [Slot.leaf_of_no_brackets hClosed] at hLeaf
      split at hLeaf
      · rename_i hIncomplete
        cases hLeaf
        refine ⟨.incomplete w.first, ?_, .incomplete w.first⟩
        rw [Window.scan, Slot.scan, Slot.bare_of_no_brackets hZero hClosed, if_pos hIncomplete]
        rfl
      · cases hLeaf
  | case9 span fixed w hOpened tree hLeaf hLinks =>
      have hScan := @scan_of_read_leaf w (fixed :: groups) tree hBalanced hOpened hLeaf
      rw [hLinks] at hScan
      exact hScan
  | case10 span fixed w hOpened tree hLeaf token next links hLinks hAgree =>
      have hScan := @scan_of_read_leaf w (fixed :: groups) tree hBalanced hOpened hLeaf
      rw [hLinks, scanLinks_of_disagree hAgree] at hScan
      exact ⟨.mixed token, hScan, .mixed token span⟩
  | case11 span fixed w hOpened tree hLeaf token next links hLinks logic hAgree error hRest
      ihRest
  | case12 span fixed w hOpened tree hLeaf token next links hLinks logic hAgree others hRest
      ihRest =>
      have hScan := @scan_of_read_leaf w (fixed :: groups) tree hBalanced hOpened hLeaf
      have hMore := @ihRest groups (isBalanced_of_leaf hBalanced hOpened hLinks)
      rw [hRest] at hMore
      rw [hScan, hLinks, scanLinks_of_agree hAgree]
      exact hMore

def AgreesOnFault (read : Except GrammarError Filter) (found : Except Fault Groups) : Prop :=
  match read with
  | .ok _ => ∃ open_, found = .ok open_
  | .error error => ∃ fault, found = .error fault ∧ fault.IsCause error.rootCause

theorem agreesOnFault_readLevel (hBalanced : w.IsBalanced) :
    AgreesOnFault (readLevel w) (w.scan (none :: groups)) := by
  have hItems := @agrees_readItems w.text none w groups hBalanced
  rw [readLevel]
  cases hRead : readItems w.text none w with
  | error error =>
      rw [hRead] at hItems
      exact hItems
  | ok items =>
      rw [hRead] at hItems
      exact ⟨_, hItems⟩

theorem agreesOnFault_ofWindow (hBalanced : w.IsBalanced) :
    AgreesOnFault (ofWindow w) (w.scan [none]) := by
  have hLevel := @agreesOnFault_readLevel w [] hBalanced
  unfold ofWindow Window.wrapsWhole
  by_cases hEnds : 0 < w.first.opened ∧ 0 < w.last.closed
  · obtain ⟨inside, after, hClosing⟩ := hBalanced.exists_closing
    rw [if_pos hEnds, hClosing]
    cases after with
    | cons link after => exact hLevel
    | nil =>
        have hScan := @scan_of_closing w [none] inside [] hEnds.1 hClosing
        have hInside := @agreesOnFault_readLevel inside.strip [none]
          (Window.isBalanced_strip_of_closing hEnds.1 hClosing)
        have hWhole := Window.append_of_closing hClosing
        rw [Window.append, List.append_nil] at hWhole
        subst hWhole
        rw [hScan]
        simp only [List.isEmpty_nil]
        cases hRead : readLevel inside.strip with
        | error error =>
            rw [hRead] at hInside
            obtain ⟨fault, hFault, hCause⟩ := hInside
            rw [hFault]
            exact ⟨fault, rfl, hCause⟩
        | ok tree =>
            rw [hRead] at hInside
            obtain ⟨open_, hOpen⟩ := hInside
            rw [hOpen]
            exact ⟨open_.tail, rfl⟩
  · rw [if_neg hEnds]
    exact hLevel

end Reading

end Filter
end RecordFilter

/-
Reading a window slot by slot.

`ofWindow` is the reader of filters as a recursion on windows.  Inside brackets it descends
to the window that is left when they are taken off, and behind an item it goes on with the
window of the slots that are left.  It ends because a level inside brackets has fewer
characters in its fields and the items behind the first one are fewer (`weight_strip_lt`,
`closingFrom_closed`).
-/
import RecordFilter.Proofs.Filter.Brackets

namespace RecordFilter
namespace Filter

/-! ### The reader on windows -/

/-- The items of a level: the connective, if there are several, and their trees. -/
structure Items where
  logic : Option Logic
  first : Filter
  others : List Filter
deriving Inhabited

def Items.tree (items : Items) : Filter :=
  match items.logic with
  | none => items.first
  | some logic => .group logic (items.first :: items.others)

def Items.cons (item : Filter) (items : Items) : Items :=
  ⟨items.logic, item, items.first :: items.others⟩

/-- The items of the level that a window holds.  `span` is the text of the level
and `fixed` its connective as far as it is known. -/
def readItems (span : String) (fixed : Option Logic) (w : Window) :
    Except GrammarError Items :=
  if _hOpened : 0 < w.first.opened then
    match _hClosing : w.closing with
    | .overclosed through => .error (.unbalancedBrackets through.text)
    | .unclosed => .error (.unbalancedBrackets w.text)
    | .closed inside after =>
        match readItems inside.strip.text none inside.strip with
        | .error source => .error (.nested span source)
        | .ok items =>
            match after with
            | [] => .ok ⟨fixed, items.tree, []⟩
            | (token, next) :: links =>
                match agree? fixed token with
                | none => .error (.mixedLogic (String.ofList token) span)
                | some logic =>
                    match readItems span (some logic) ⟨next, links⟩ with
                    | .error error => .error error
                    | .ok others => .ok (others.cons items.tree)
  else
    match w.first.leaf with
    | .error error => .error error
    | .ok tree =>
        match _hLinks : w.links with
        | [] => .ok ⟨fixed, tree, []⟩
        | (token, next) :: links =>
            match agree? fixed token with
            | none => .error (.mixedLogic (String.ofList token) span)
            | some logic =>
                match readItems span (some logic) ⟨next, links⟩ with
                | .error error => .error error
                | .ok others => .ok (others.cons tree)
termination_by w.weight
decreasing_by
  · obtain ⟨hFirst, hLinks⟩ := Window.closingFrom_closed _hClosing
    have hStrip := Window.weight_strip_lt (w := inside) (by rw [hFirst]; exact _hOpened)
    have hWeight := Window.linksWeight_append inside.links after
    simp only [Window.weight, hFirst, hLinks] at hStrip ⊢
    omega
  · obtain ⟨-, hLinks⟩ := Window.closingFrom_closed _hClosing
    have hWeight := Window.linksWeight_append inside.links ((token, next) :: links)
    simp only [Window.weight, hLinks, hWeight, Window.linksWeight]
    omega
  · simp only [Window.weight, _hLinks, Window.linksWeight]
    omega

def readLevel (w : Window) : Except GrammarError Filter :=
  match readItems w.text none w with
  | .error error => .error error
  | .ok items => .ok items.tree

/-- The filter that a window holds.  Brackets around the whole window are taken
off first. -/
def ofWindow (w : Window) : Except GrammarError Filter :=
  match w.wrapsWhole with
  | .error error => .error error
  | .ok true => readLevel w.strip
  | .ok false => readLevel w

def ofTokens (tokens : List Token) : Except GrammarError Filter :=
  match Window.ofTokens? tokens with
  | none => .error (.tokenCount (spanText tokens) tokens.length)
  | some w => ofWindow w

/-! ### Windows and tokens -/

namespace Window

theorem ofTokens?_extend {slot : Slot} {token : Token} {tokens : List Token} {w : Window}
    (hRest : ofTokens? tokens = some w) :
    ofTokens? (slot.tokens ++ token :: tokens) = some (w.extend slot token) := by
  simp [Slot.tokens, ofTokens?, hRest, extend]

theorem ofTokens?_tokens (w : Window) : ofTokens? w.tokens = some w := by
  induction w using slotInduction with
  | single slot => rfl
  | extend slot token w ih =>
      rw [tokens_extend]
      exact ofTokens?_extend ih

theorem tokens_of_ofTokens? {tokens : List Token} {w : Window}
    (hWindow : ofTokens? tokens = some w) : w.tokens = tokens := by
  induction tokens using ofTokens?.induct generalizing w with
  | case1 field operator value =>
      cases hWindow
      rfl
  | case2 field operator value token tokens ih =>
      simp only [ofTokens?, Option.map_eq_some_iff] at hWindow
      obtain ⟨rest, hRest, rfl⟩ := hWindow
      have hTokens := ih hRest
      rw [← hTokens]
      exact tokens_extend ⟨field, operator, value⟩ token rest
  | case3 tokens hThree hMore =>
      simp [ofTokens?] at hWindow

theorem tokens_length (w : Window) : w.tokens.length + 1 = 4 * w.slots.length := by
  induction w using slotInduction with
  | single slot => rfl
  | extend slot token w ih =>
      rw [tokens_extend, slots_extend]
      simp only [List.length_append, List.length_cons, Slot.tokens, List.length_nil]
      omega

end Window

theorem exists_window_iff {tokens : List Token} :
    (∃ w, Window.ofTokens? tokens = some w) ↔ tokens.length % 4 = 3 := by
  constructor
  · rintro ⟨w, hWindow⟩
    have hLength := w.tokens_length
    have hPositive : 0 < w.slots.length := by simp [Window.slots]
    rw [Window.tokens_of_ofTokens? hWindow] at hLength
    omega
  · intro hCount
    induction tokens using Window.ofTokens?.induct with
    | case1 field operator value => exact ⟨_, rfl⟩
    | case2 field operator value token tokens ih =>
        simp only [List.length_cons] at hCount
        obtain ⟨w, hWindow⟩ := ih (by omega)
        rw [Window.ofTokens?, hWindow]
        exact ⟨_, rfl⟩
    | case3 tokens hThree hMore =>
        rcases tokens with _ | ⟨field, _ | ⟨operator, _ | ⟨value, _ | ⟨token, rest⟩⟩⟩⟩
        · cases hCount
        · cases hCount
        · cases hCount
        · exact absurd rfl (hThree field operator value)
        · exact absurd rfl (hMore field operator value token rest)

/-! ### One item at a time -/

def readMore (span : String) (fixed : Option Logic) (tree : Filter) :
    List Link → Except GrammarError Items
  | [] => .ok ⟨fixed, tree, []⟩
  | (token, next) :: links =>
      match agree? fixed token with
      | none => .error (.mixedLogic (String.ofList token) span)
      | some logic =>
          match readItems span (some logic) ⟨next, links⟩ with
          | .error error => .error error
          | .ok others => .ok (others.cons tree)

variable {span : String} {fixed : Option Logic} {w : Window}

theorem readItems_of_leaf (hOpened : w.first.opened = 0) :
    readItems span fixed w =
      match w.first.leaf with
      | .error error => .error error
      | .ok tree => readMore span fixed tree w.links := by
  obtain ⟨first, links⟩ := w
  rw [readItems, dif_neg (by omega)]
  cases first.leaf with
  | error error => rfl
  | ok tree => cases links <;> rfl

theorem readItems_of_opened (hOpened : 0 < w.first.opened) :
    readItems span fixed w =
      match w.closing with
      | .overclosed through => .error (.unbalancedBrackets through.text)
      | .unclosed => .error (.unbalancedBrackets w.text)
      | .closed inside after =>
          match readItems inside.strip.text none inside.strip with
          | .error source => .error (.nested span source)
          | .ok items => readMore span fixed items.tree after := by
  rw [readItems, dif_pos hOpened]
  split
  · rename_i through hClosing
    rw [hClosing]
  · rename_i hClosing
    rw [hClosing]
  · rename_i inside after hClosing
    simp only [hClosing]
    cases readItems inside.strip.text none inside.strip with
    | error source => rfl
    | ok items => cases after <;> rfl

theorem readMore_of_agree {tree : Filter} {token : Token} {next : Slot} {links : List Link}
    {logic : Logic} (hAgree : agree? fixed token = some logic) :
    readMore span fixed tree ((token, next) :: links) =
      (readItems span (some logic) ⟨next, links⟩).map (Items.cons tree) := by
  rw [readMore, hAgree]
  simp only
  cases readItems span (some logic) ⟨next, links⟩ <;> rfl

theorem isSome_of_readItems {items : Items} (hRead : readItems span fixed w = .ok items)
    (hFixed : fixed.isSome) : items.logic.isSome := by
  fun_induction readItems span fixed w generalizing items with
  | case1 | case2 | case3 | case5 | case6 | case8 | case10 | case11 => cases hRead
  | case4 | case9 =>
      cases hRead
      exact hFixed
  | case7 span fixed w hOpened inside inner hInner token next links hClosing logic hAgree
      others hOthers _ ihInner ihOthers =>
      cases hRead
      change others.logic.isSome
      exact ihOthers hOthers rfl
  | case12 span fixed w hOpened tree hLeaf token next links hLinks logic hAgree others
      hOthers ihOthers =>
      cases hRead
      change others.logic.isSome
      exact ihOthers hOthers rfl

def Items.treeBehind (front : List Filter) (items : Items) : Filter :=
  match items.logic with
  | none => items.first
  | some logic => .group logic (front ++ items.first :: items.others)

theorem Items.treeBehind_nil (items : Items) : items.treeBehind [] = items.tree := by
  obtain ⟨logic, first, others⟩ := items
  cases logic <;> rfl

theorem Items.treeBehind_cons (front : List Filter) (tree : Filter) {items : Items}
    (hSome : items.logic.isSome) :
    (items.cons tree).treeBehind front = items.treeBehind (front ++ [tree]) := by
  obtain ⟨logic, first, others⟩ := items
  cases logic with
  | none => cases hSome
  | some logic => simp [treeBehind, cons]

end Filter
end RecordFilter

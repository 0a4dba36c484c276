/-
What the reader of filters accepts.

What is read from the tokens of a text is what is read from their window
(`parse_eq_ofTokens`), from left to right and descending into brackets.  That is
related to the grammar in both directions: a window that is read holds a run of
items with the trees that were found (`derivedFrom_of_readItems`), and a window that
holds a run of items is read with their trees (`exists_window_of_isRun`).  The
brackets around a whole window are taken off in advance, which changes no tree.
-/
import RecordFilter.Proofs.Filter.AddedBrackets
import RecordFilter.Proofs.Filter.Segments
import RecordFilter.Proofs.Filter.Tokens

namespace RecordFilter
namespace Filter

variable {span : String} {fixed : Option Logic} {w : Window}

/-! ### Connectives and comparisons -/

theorem agree?_eq_some_iff {token : Token} {logic : Logic} :
    agree? fixed token = some logic ↔
      token = logic.word ∧ (fixed = none ∨ fixed = some logic) := by
  rw [← Logic.ofWord?_eq_some_iff]
  unfold agree?
  cases Logic.ofWord? token with
  | none => simp
  | some found =>
      cases fixed with
      | none => simp
      | some known =>
          by_cases hSame : found = known
          · simp [hSame]
          · simp only [if_neg hSame, reduceCtorEq, false_iff, false_or, Option.some.injEq,
              not_and]
            intro hFound hKnown
            exact hSame (hFound.trans hKnown.symm)

theorem leaf_eq_ok_iff {slot : Slot} {tree : Filter} :
    slot.leaf = .ok tree ↔
      slot.field ≠ [] ∧ slot.operator ≠ [] ∧ slot.value ≠ [] ∧ slot.closed = 0 ∧
        tree = .leaf (String.ofList slot.field) (String.ofList slot.operator)
          (.text (String.ofList slot.value)) := by
  unfold Slot.leaf
  by_cases hEmpty : slot.field = [] ∨ slot.operator = [] ∨ slot.value = []
  · rw [if_pos hEmpty]
    constructor
    · intro hLeaf
      cases hLeaf
    · rintro ⟨hField, hOperator, hValue, -, -⟩
      rcases hEmpty with h | h | h
      · exact absurd h hField
      · exact absurd h hOperator
      · exact absurd h hValue
  · rw [if_neg hEmpty]
    simp only [not_or] at hEmpty
    by_cases hClosed : 0 < slot.closed
    · simp only [if_pos hClosed, reduceCtorEq, false_iff]
      rintro ⟨-, -, -, hZero, -⟩
      omega
    · have hZero : slot.closed = 0 := by omega
      simp [hZero, hEmpty, eq_comm]

theorem isItem_of_leaf {slot : Slot} {tree : Filter} (hOpened : ¬ 0 < slot.opened)
    (hLeaf : slot.leaf = .ok tree) : IsItem slot.tokens tree := by
  obtain ⟨hField, hOperator, hValue, hClosed, rfl⟩ := leaf_eq_ok_iff.mp hLeaf
  refine .leaf hField hOperator hValue ?_ ?_
  · intro hHead
    exact hOpened ((leadingRun_pos_iff slot.field).mpr hHead)
  · intro hLast
    have hPositive : 0 < slot.closed := (trailingRun_pos_iff slot.value).mpr hLast
    omega

/-! ### What is read is derived -/

def Items.trees (items : Items) : List Filter := items.first :: items.others

def Items.DerivedFrom (items : Items) (fixed : Option Logic) (tokens : List Token) : Prop :=
  ∃ logic, IsRun logic tokens items.trees ∧ (fixed = none ∨ fixed = some logic) ∧
    items.logic = if items.others = [] then fixed else some logic

theorem Items.tree_eq_collapse {items : Items} {logic : Logic}
    (hLogic : items.logic = if items.others = [] then none else some logic) :
    items.tree = collapse logic items.trees := by
  obtain ⟨found, first, others⟩ := items
  cases others with
  | nil =>
      cases hLogic
      rfl
  | cons other others =>
      cases hLogic
      rfl

theorem Items.DerivedFrom.isLevel {items : Items} {tokens : List Token}
    (hItems : items.DerivedFrom none tokens) : IsLevel tokens items.tree := by
  obtain ⟨logic, hRun, -, hLogic⟩ := hItems
  exact ⟨logic, items.trees, hRun, Items.tree_eq_collapse hLogic⟩

theorem derivedFrom_last {tokens : List Token} {tree : Filter} (hItem : IsItem tokens tree) :
    (⟨fixed, tree, []⟩ : Items).DerivedFrom fixed tokens := by
  cases fixed with
  | none => exact ⟨.and, .last hItem, .inl rfl, rfl⟩
  | some logic => exact ⟨logic, .last hItem, .inr rfl, rfl⟩

theorem derivedFrom_more {tokens rest : List Token} {tree : Filter} {token : Token}
    {logic : Logic} {others : Items} (hItem : IsItem tokens tree)
    (hAgree : agree? fixed token = some logic)
    (hOthers : others.DerivedFrom (some logic) rest) :
    (others.cons tree).DerivedFrom fixed (tokens ++ token :: rest) := by
  obtain ⟨rfl, hFixed⟩ := agree?_eq_some_iff.mp hAgree
  obtain ⟨same, hRun, hSame, hLogic⟩ := hOthers
  have hEqual : logic = same := by simpa using hSame
  subst hEqual
  refine ⟨logic, .more hItem hRun, hFixed, ?_⟩
  simpa [Items.cons] using hLogic

theorem Window.tokens_append (w : Window) (next : Slot) (token : Token) (links : List Link) :
    (w.append ((token, next) :: links)).tokens =
      w.tokens ++ token :: (⟨next, links⟩ : Window).tokens := by
  induction w using slotInduction with
  | single slot => rfl
  | extend slot other w ih =>
      have hAppend : (w.extend slot other).append ((token, next) :: links) =
          (w.append ((token, next) :: links)).extend slot other := rfl
      rw [hAppend, tokens_extend, tokens_extend, ih]
      simp

theorem isItem_of_closing {inside : Window} {after : List Link} {tree : Filter}
    (hOpened : 0 < w.first.opened) (hClosing : w.closing = .closed inside after)
    (hLevel : IsLevel inside.strip.tokens tree) : IsItem inside.tokens tree := by
  rw [← Window.enclose_strip_of_closing hOpened hClosing, Window.tokens_enclose]
  exact hLevel.isItem_enclose

theorem derivedFrom_of_readItems {items : Items} (hRead : readItems span fixed w = .ok items) :
    items.DerivedFrom fixed w.tokens := by
  fun_induction readItems span fixed w generalizing items with
  -- Eight branches fail.  In the others the first item stands in brackets or is a
  -- comparison, and nothing or a connective follows it.
  | case1 | case2 | case3 | case5 | case6 | case8 | case10 | case11 => cases hRead
  | case4 span fixed w hOpened inside inner hInner hClosing _ ihInner =>
      cases hRead
      have hItem := isItem_of_closing hOpened hClosing (ihInner hInner).isLevel
      rw [← Window.append_of_closing hClosing, Window.append, List.append_nil]
      exact derivedFrom_last hItem
  | case7 span fixed w hOpened inside inner hInner token next links hClosing logic hAgree
      others hOthers _ ihInner ihOthers =>
      cases hRead
      have hItem := isItem_of_closing hOpened hClosing (ihInner hInner).isLevel
      rw [← Window.append_of_closing hClosing, Window.tokens_append]
      exact derivedFrom_more hItem hAgree (ihOthers hOthers)
  | case9 span fixed w hOpened tree hLeaf hLinks =>
      cases hRead
      obtain ⟨first, links⟩ := w
      subst hLinks
      exact derivedFrom_last (isItem_of_leaf hOpened hLeaf)
  | case12 span fixed w hOpened tree hLeaf token next links hLinks logic hAgree others
      hOthers ihOthers =>
      cases hRead
      obtain ⟨first, links⟩ := w
      subst hLinks
      exact derivedFrom_more (isItem_of_leaf hOpened hLeaf) hAgree (ihOthers hOthers)

/-! ### What is derived is read -/

/-- A window is read as one item with a tree, whatever links follow it. -/
def Window.IsReadAs (w : Window) (tree : Filter) : Prop :=
  ∀ span fixed after, readItems span fixed (w.append after) = readMore span fixed tree after

/-- A window is read as items with some trees under a connective, if what is known of
the connective agrees. -/
def Window.IsReadAsRun (w : Window) (logic : Logic) (trees : List Filter) : Prop :=
  ∀ span fixed, (fixed = none ∨ fixed = some logic) →
    ∃ items, readItems span fixed w = .ok items ∧ items.trees = trees ∧
      items.logic = if items.others = [] then fixed else some logic

theorem isReadAs_leaf {slot : Slot} {tree : Filter} (hOpened : slot.opened = 0)
    (hLeaf : slot.leaf = .ok tree) : (⟨slot, []⟩ : Window).IsReadAs tree := by
  intro span fixed after
  rw [readItems_of_leaf (by exact hOpened)]
  simp only [Window.append, hLeaf, List.nil_append]

theorem isReadAs_enclose {w : Window} {logic : Logic} {trees : List Filter}
    (hBalanced : w.IsBalanced) (hRun : w.IsReadAsRun logic trees) :
    w.enclose.IsReadAs (collapse logic trees) := by
  intro span fixed after
  have hOpened : 0 < (w.enclose.append after).first.opened := by
    change 0 < w.addClosing.first.addOpening.opened
    rw [Slot.opened_addOpening]
    omega
  obtain ⟨items, hRead, hTrees, hLogic⟩ := hRun w.text none (.inl rfl)
  rw [readItems_of_opened hOpened, Window.closing_enclose hBalanced]
  simp only [Window.strip_enclose, hRead]
  rw [Items.tree_eq_collapse hLogic, hTrees]

theorem isReadAsRun_last {w : Window} {logic : Logic} {tree : Filter}
    (hItem : w.IsReadAs tree) : w.IsReadAsRun logic [tree] := by
  intro span fixed _
  have hRead := hItem span fixed []
  rw [Window.append, List.append_nil] at hRead
  exact ⟨⟨fixed, tree, []⟩, hRead, rfl, rfl⟩

theorem isReadAsRun_more {w rest : Window} {logic : Logic} {tree : Filter}
    {trees : List Filter} (hItem : w.IsReadAs tree) (hRest : rest.IsReadAsRun logic trees) :
    (w.append ((logic.word, rest.first) :: rest.links)).IsReadAsRun logic (tree :: trees) := by
  intro span fixed hFixed
  obtain ⟨others, hOthers, hTrees, hLogic⟩ := hRest span (some logic) (.inr rfl)
  have hAgree : agree? fixed logic.word = some logic := agree?_eq_some_iff.mpr ⟨rfl, hFixed⟩
  refine ⟨others.cons tree, ?_, ?_, ?_⟩
  · rw [hItem span fixed, readMore, hAgree]
    simp only [hOthers]
  · rw [← hTrees]
    rfl
  · simpa [Items.cons] using hLogic

theorem isBalanced_single {slot : Slot} (hOpened : slot.opened = 0)
    (hClosed : slot.closed = 0) : (⟨slot, []⟩ : Window).IsBalanced := by
  simp [Window.IsBalanced, Window.slots, Window.depthAfter, hOpened, hClosed]

mutual

theorem exists_window_of_isItem : ∀ {tokens : List Token} {tree : Filter},
    IsItem tokens tree →
      ∃ w : Window, w.tokens = tokens ∧ w.IsBalanced ∧ w.IsReadAs tree
  | _, _, @IsItem.leaf field operator value hField hOperator hValue hOpening hClosing => by
      have hOpened : leadingRun field = 0 := by
        have hIff := leadingRun_pos_iff field
        have hNone := mt hIff.mp hOpening
        omega
      have hClosed : trailingRun value = 0 := by
        have hIff := trailingRun_pos_iff value
        have hNone := mt hIff.mp hClosing
        omega
      have hLeaf : (⟨field, operator, value⟩ : Slot).leaf = .ok _ :=
        leaf_eq_ok_iff.mpr ⟨hField, hOperator, hValue, hClosed, rfl⟩
      exact ⟨⟨⟨field, operator, value⟩, []⟩, rfl, isBalanced_single hOpened hClosed,
        isReadAs_leaf hOpened hLeaf⟩
  | _, _, .level hRun => by
      obtain ⟨w, rfl, hBalanced, hRead⟩ := exists_window_of_isRun hRun
      exact ⟨w.enclose, Window.tokens_enclose w, hBalanced.enclose,
        isReadAs_enclose hBalanced hRead⟩

theorem exists_window_of_isRun : ∀ {logic : Logic} {tokens : List Token} {trees : List Filter},
    IsRun logic tokens trees →
      ∃ w : Window, w.tokens = tokens ∧ w.IsBalanced ∧ w.IsReadAsRun logic trees
  | _, _, _, .last hItem => by
      obtain ⟨w, hTokens, hBalanced, hRead⟩ := exists_window_of_isItem hItem
      exact ⟨w, hTokens, hBalanced, isReadAsRun_last hRead⟩
  | _, _, _, .more hItem hRest => by
      obtain ⟨w, rfl, hBalanced, hRead⟩ := exists_window_of_isItem hItem
      obtain ⟨rest, rfl, hRestBalanced, hRestRead⟩ := exists_window_of_isRun hRest
      exact ⟨w.append _, Window.tokens_append w rest.first _ rest.links,
        hBalanced.append hRestBalanced _, isReadAsRun_more hRead hRestRead⟩

end

theorem IsRun.ne_nil {logic : Logic} {tokens : List Token} {trees : List Filter}
    (hRun : IsRun logic tokens trees) : tokens ≠ [] := by
  obtain ⟨w, rfl, -, -⟩ := exists_window_of_isRun hRun
  simp [Window.tokens, Slot.tokens]

theorem IsLevel.ne_nil {tokens : List Token} {tree : Filter} (hLevel : IsLevel tokens tree) :
    tokens ≠ [] := by
  obtain ⟨logic, trees, hRun, -⟩ := hLevel
  exact hRun.ne_nil

/-! ### Levels, tokens and texts -/

theorem readLevel_eq_ok_iff {tree : Filter} :
    readLevel w = .ok tree ↔ ∃ items, readItems w.text none w = .ok items ∧
      items.tree = tree := by
  unfold readLevel
  cases readItems w.text none w with
  | error error => simp
  | ok items => simp

/-- Brackets around a whole window change neither its tree nor whether there is one. -/
theorem ofWindow_eq_ok_iff {tree : Filter} :
    ofWindow w = .ok tree ↔ readLevel w = .ok tree := by
  unfold ofWindow Window.wrapsWhole
  by_cases hEnds : 0 < w.first.opened ∧ 0 < w.last.closed
  · have hRead := @readItems_of_opened w.text none w hEnds.1
    rw [if_pos hEnds]
    cases hClosing : w.closing with
    | overclosed through => simp [readLevel, hRead, hClosing]
    | unclosed => simp [readLevel, hRead, hClosing]
    | closed inside after =>
        cases after with
        | cons link after => simp
        | nil =>
            -- The whole window is one item, so reading it descends to what `strip` leaves.
            have hInside := Window.append_of_closing hClosing
            rw [Window.append, List.append_nil] at hInside
            subst hInside
            simp only [hClosing] at hRead
            simp only [List.isEmpty_nil, readLevel, hRead]
            cases readItems inside.strip.text none inside.strip with
            | error error => simp
            | ok items => simp [readMore, Items.tree]
  · rw [if_neg hEnds]

theorem ofWindow_eq_ok_iff_isLevel {tree : Filter} :
    ofWindow w = .ok tree ↔ IsLevel w.tokens tree := by
  rw [ofWindow_eq_ok_iff, readLevel_eq_ok_iff]
  constructor
  · rintro ⟨items, hRead, rfl⟩
    exact (derivedFrom_of_readItems hRead).isLevel
  · rintro ⟨logic, trees, hRun, rfl⟩
    obtain ⟨same, hTokens, -, hRead⟩ := exists_window_of_isRun hRun
    have hSame : some same = some w := by
      rw [← Window.ofTokens?_tokens same, hTokens, Window.ofTokens?_tokens]
    cases hSame
    obtain ⟨items, hItems, hTrees, hLogic⟩ := hRead w.text none (.inl rfl)
    exact ⟨items, hItems, by rw [Items.tree_eq_collapse hLogic, hTrees]⟩

theorem ofTokens_eq_ok_iff {tokens : List Token} {tree : Filter} :
    ofTokens tokens = .ok tree ↔ IsLevel tokens tree := by
  unfold ofTokens
  cases hWindow : Window.ofTokens? tokens with
  | none =>
      simp only [reduceCtorEq, false_iff]
      rintro ⟨logic, trees, hRun, rfl⟩
      obtain ⟨w, rfl, -, -⟩ := exists_window_of_isRun hRun
      rw [Window.ofTokens?_tokens] at hWindow
      cases hWindow
  | some w =>
      rw [← Window.tokens_of_ofTokens? hWindow]
      exact ofWindow_eq_ok_iff_isLevel

theorem parse_eq_ofTokens (input : String) :
    parse input =
      if input = "" then .ok none
      else
        match tokenize input with
        | .error error => .error error
        | .ok tokens =>
            match ofTokens tokens with
            | .error error => .error error
            | .ok filter => .ok (some filter) := by
  unfold parse
  cases hTokens : tokenize input with
  | error error => rfl
  | ok tokens =>
      have hSome : tokens ≠ [] := by
        obtain ⟨rfl, -⟩ := tokenize_eq_ok_iff.mp hTokens
        exact Text.split_ne_nil delimiter input.toList
      cases hRead : ofTokens tokens with
      | error error => simp only [parseTokens_whole hSome, hRead]
      | ok filter => simp only [parseTokens_whole hSome, hRead]

theorem parse_of_tokens {input : String} (hInput : input ≠ "")
    (hTokens : ∀ token ∈ Text.split delimiter input.toList, token ≠ []) :
    parse input =
      match ofTokens (Text.split delimiter input.toList) with
      | .error error => .error error
      | .ok filter => .ok (some filter) := by
  have hTokenize := tokenize_eq_ok_iff.mpr ⟨rfl, hTokens⟩
  rw [parse_eq_ofTokens, if_neg hInput, hTokenize]

/-- A text denotes a tree when its pieces between delimiters are the tokens of a level
with this tree. -/
theorem parse_eq_ok_some_iff {input : String} {tree : Filter} :
    parse input = .ok (some tree) ↔ IsLevel (Text.split delimiter input.toList) tree := by
  constructor
  · intro hParse
    rw [parse_eq_ofTokens] at hParse
    split at hParse
    · cases hParse
    · cases hTokens : tokenize input with
      | error error =>
          rw [hTokens] at hParse
          cases hParse
      | ok tokens =>
          rw [hTokens] at hParse
          cases hTree : ofTokens tokens with
          | error error =>
              simp only [hTree] at hParse
              cases hParse
          | ok found =>
              simp only [hTree] at hParse
              cases hParse
              obtain ⟨rfl, -⟩ := tokenize_eq_ok_iff.mp hTokens
              exact ofTokens_eq_ok_iff.mp hTree
  · intro hLevel
    have hInput : input ≠ "" := by
      rintro rfl
      exact hLevel.token_ne_nil [] (by simp [Text.split]) rfl
    rw [parse_of_tokens hInput hLevel.token_ne_nil]
    simp only [ofTokens_eq_ok_iff.mpr hLevel]

/-- A text denotes a tree exactly when it is the join of non-empty tokens that form a
level with this tree. -/
theorem parse_accepts_exactly_levels (input : String) (tree : Filter) :
    parse input = .ok (some tree) ↔
      ∃ tokens, (∀ token ∈ tokens, token ≠ [] ∧ delimiter ∉ token) ∧
        input.toList = Text.join delimiter tokens ∧ IsLevel tokens tree := by
  rw [parse_eq_ok_some_iff]
  constructor
  · intro hLevel
    refine ⟨_, ?_, (Text.join_split delimiter input.toList).symm, hLevel⟩
    intro token hToken
    exact ⟨hLevel.token_ne_nil token hToken, Text.not_mem_of_mem_split hToken⟩
  · rintro ⟨tokens, hTokens, hInput, hLevel⟩
    have hFree : ∀ token ∈ tokens, delimiter ∉ token := fun token hToken =>
      (hTokens token hToken).2
    rw [hInput, Text.split_join hLevel.ne_nil hFree]
    exact hLevel

end Filter
end RecordFilter

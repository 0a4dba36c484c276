/-
Trees that can be written and trees that are read.

`Every` says that no group is empty and that all comparisons have a property;
`IsPrintable` is the property that keeps the tokens of a comparison apart from
the brackets and delimiters around them.  Trees that come from text are normal:
printable, without groups of one member, and with texts as values.  Simplifying
a tree and replacing its values by their texts leaves its text as it is.
-/
import Mathlib.Tactic.MkIffOfInductiveProp
import RecordFilter.Proofs.Filter.AddedBrackets

namespace RecordFilter
namespace Filter

/-! ### Properties of all comparisons -/

mutual

def Every (p : String → String → Atom → Prop) : Filter → Prop
  | .leaf field operator value => p field operator value
  | .group _ children => children ≠ [] ∧ EveryIn p children

def EveryIn (p : String → String → Atom → Prop) : List Filter → Prop
  | [] => True
  | child :: children => child.Every p ∧ EveryIn p children

end

variable {p q : String → String → Atom → Prop}

theorem everyIn_iff (children : List Filter) :
    EveryIn p children ↔ ∀ child ∈ children, child.Every p := by
  induction children with
  | nil => simp [EveryIn]
  | cons child children ih => rw [EveryIn, ih, List.forall_mem_cons]

theorem every_collapse_iff (logic : Logic) (children : List Filter) :
    (collapse logic children).Every p ↔ children ≠ [] ∧ EveryIn p children := by
  rcases children with _ | ⟨only, _ | ⟨next, children⟩⟩
  · rfl
  · simp [collapse, EveryIn]
  · rfl

theorem simplifyAll_eq_map (children : List Filter) :
    simplifyAll children = children.map simplify := by
  induction children with
  | nil => rfl
  | cons child children ih => rw [simplifyAll, ih, List.map_cons]

theorem simplify_collapse (logic : Logic) (children : List Filter) :
    (collapse logic children).simplify = collapse logic (simplifyAll children) := by
  rcases children with _ | ⟨only, _ | ⟨next, children⟩⟩ <;> rfl

mutual

theorem every_simplify_iff : ∀ filter : Filter, filter.simplify.Every p ↔ filter.Every p
  | .leaf field operator value => Iff.rfl
  | .group logic children => by
      rw [simplify, every_collapse_iff, everyIn_simplifyAll_iff, Every, simplifyAll_eq_map,
        ne_eq, List.map_eq_nil_iff]

theorem everyIn_simplifyAll_iff : ∀ children : List Filter,
    EveryIn p (simplifyAll children) ↔ EveryIn p children
  | [] => Iff.rfl
  | child :: children => by
      rw [simplifyAll, EveryIn, EveryIn, every_simplify_iff, everyIn_simplifyAll_iff]

end

mutual

def decideEvery (p : String → String → Atom → Prop)
    [∀ field operator value, Decidable (p field operator value)] :
    ∀ filter : Filter, Decidable (filter.Every p)
  | .leaf field operator value => inferInstanceAs (Decidable (p field operator value))
  | .group _ children =>
      have := decideEveryIn p children
      inferInstanceAs (Decidable (children ≠ [] ∧ EveryIn p children))

def decideEveryIn (p : String → String → Atom → Prop)
    [∀ field operator value, Decidable (p field operator value)] :
    ∀ children : List Filter, Decidable (EveryIn p children)
  | [] => inferInstanceAs (Decidable True)
  | child :: children =>
      have := decideEvery p child
      have := decideEveryIn p children
      inferInstanceAs (Decidable (child.Every p ∧ EveryIn p children))

end

instance [∀ field operator value, Decidable (p field operator value)] (filter : Filter) :
    Decidable (filter.Every p) :=
  decideEvery p filter

/-! ### Values as texts -/

mutual

def textual : Filter → Filter
  | .leaf field operator value => .leaf field operator (.text value.display)
  | .group logic children => .group logic (textualAll children)

def textualAll : List Filter → List Filter
  | [] => []
  | child :: children => child.textual :: textualAll children

end

theorem textualAll_eq_map (children : List Filter) :
    textualAll children = children.map textual := by
  induction children with
  | nil => rfl
  | cons child children ih => rw [textualAll, ih, List.map_cons]

theorem textual_collapse (logic : Logic) (children : List Filter) :
    (collapse logic children).textual = collapse logic (textualAll children) := by
  rcases children with _ | ⟨only, _ | ⟨next, children⟩⟩ <;> rfl

mutual

theorem every_textual_iff (hText : ∀ field operator value,
    q field operator (.text value.display) ↔ p field operator value) :
    ∀ filter : Filter, filter.textual.Every q ↔ filter.Every p
  | .leaf field operator value => hText field operator value
  | .group logic children => by
      rw [textual, Every, Every, everyIn_textualAll_iff hText, textualAll_eq_map, ne_eq,
        List.map_eq_nil_iff]

theorem everyIn_textualAll_iff (hText : ∀ field operator value,
    q field operator (.text value.display) ↔ p field operator value) :
    ∀ children : List Filter, EveryIn q (textualAll children) ↔ EveryIn p children
  | [] => Iff.rfl
  | child :: children => by
      rw [textualAll, EveryIn, EveryIn, every_textual_iff hText, everyIn_textualAll_iff hText]

end

/-! ### The text of a changed tree -/

def SameText (left right : Filter) : Prop := ∀ top, left.write top = right.write top

theorem sameText_collapse (logic : Logic) (children : List Filter) :
    SameText (collapse logic children) (group logic children) := by
  intro top
  rcases children with _ | ⟨only, _ | ⟨next, children⟩⟩
  · rfl
  · rw [collapse, write]
  · rfl

theorem writeMore_congr {logic : Logic} {left right : List Filter}
    (hSame : List.Forall₂ SameText left right) : writeMore logic left = writeMore logic right := by
  induction hSame with
  | nil => rfl
  | cons hHead _ ih => rw [writeMore, writeMore, hHead, ih]

theorem sameText_group {logic : Logic} {left right : List Filter}
    (hSame : List.Forall₂ SameText left right) :
    SameText (group logic left) (group logic right) := by
  intro top
  cases hSame with
  | nil => rfl
  | cons hHead hRest =>
      cases hRest with
      | nil => rw [write, write, hHead]
      | cons hNext hMore =>
          rw [write, write, hHead, writeMore_congr (.cons hNext hMore)]

mutual

theorem sameText_simplify : ∀ filter : Filter, SameText filter.simplify filter
  | .leaf _ _ _ => fun _ => rfl
  | .group logic children => fun top =>
      (sameText_collapse logic (simplifyAll children) top).trans
        (sameText_group (sameText_simplifyAll children) top)

theorem sameText_simplifyAll : ∀ children : List Filter,
    List.Forall₂ SameText (simplifyAll children) children
  | [] => .nil
  | child :: children => .cons (sameText_simplify child) (sameText_simplifyAll children)

end

mutual

theorem sameText_textual : ∀ filter : Filter, SameText filter.textual filter
  | .leaf field operator value => by
      intro top
      rw [textual, write, write, Atom.write, Atom.display, String.toList_ofList]
  | .group logic children => sameText_group (sameText_textualAll children)

theorem sameText_textualAll : ∀ children : List Filter,
    List.Forall₂ SameText (textualAll children) children
  | [] => .nil
  | child :: children => .cons (sameText_textual child) (sameText_textualAll children)

end

/-! ### Normal trees -/

/-- A comparison whose tokens stay apart from the brackets and delimiters around
them. -/
@[mk_iff]
structure IsPrintable (field operator : String) (value : Atom) : Prop where
  field_ne_nil : field.toList ≠ []
  field_free : delimiter ∉ field.toList
  field_head : field.toList.head? ≠ some leftBracket
  operator_ne_nil : operator.toList ≠ []
  operator_free : delimiter ∉ operator.toList
  value_ne_nil : value.display.toList ≠ []
  value_free : delimiter ∉ value.display.toList
  value_last : value.display.toList.getLast? ≠ some rightBracket

instance (field operator : String) (value : Atom) :
    Decidable (IsPrintable field operator value) :=
  decidable_of_iff _ (isPrintable_iff field operator value).symm

/-- A printable tree without groups of one member, with texts as values. -/
structure IsNormal (filter : Filter) : Prop where
  printable : filter.Every IsPrintable
  simplify_eq : filter.simplify = filter
  textual_eq : filter.textual = filter

theorem display_text (s : String) : (Atom.text s).display = s := by
  rw [Atom.display, Atom.write, String.ofList_toList]

theorem isNormal_leaf {field operator text : String}
    (hPrintable : IsPrintable field operator (.text text)) :
    (leaf field operator (.text text)).IsNormal := by
  refine ⟨hPrintable, rfl, ?_⟩
  rw [textual, display_text]

theorem isNormal_collapse {logic : Logic} {children : List Filter} (hSome : children ≠ [])
    (hNormal : ∀ child ∈ children, child.IsNormal) : (collapse logic children).IsNormal := by
  have hSimplify : simplifyAll children = children := by
    rw [simplifyAll_eq_map]
    exact (List.map_congr_left fun child hChild => (hNormal child hChild).simplify_eq).trans
      (List.map_id' children)
  have hTextual : textualAll children = children := by
    rw [textualAll_eq_map]
    exact (List.map_congr_left fun child hChild => (hNormal child hChild).textual_eq).trans
      (List.map_id' children)
  refine ⟨?_, ?_, ?_⟩
  · rw [every_collapse_iff, everyIn_iff]
    exact ⟨hSome, fun child hChild => (hNormal child hChild).printable⟩
  · rw [simplify_collapse, hSimplify]
  · rw [textual_collapse, hTextual]

mutual

theorem IsItem.isNormal : ∀ {tokens : List Token} {tree : Filter}, IsItem tokens tree →
    (∀ token ∈ tokens, delimiter ∉ token) → tree.IsNormal
  | _, _, @IsItem.leaf field operator value hField hOperator hValue hOpening hClosing => by
      intro hFree
      simp only [List.forall_mem_cons] at hFree
      obtain ⟨hFieldFree, hOperatorFree, hValueFree, -⟩ := hFree
      apply isNormal_leaf
      constructor <;> simp only [display_text, String.toList_ofList] <;> assumption
  | _, _, .level hRun => by
      intro hFree
      have hNormal := hRun.isNormal ((loosens_enclose _).delimiter_free_iff.mp hFree)
      exact isNormal_collapse hRun.trees_ne_nil hNormal

theorem IsRun.isNormal : ∀ {logic : Logic} {tokens : List Token} {trees : List Filter},
    IsRun logic tokens trees → (∀ token ∈ tokens, delimiter ∉ token) →
      ∀ tree ∈ trees, tree.IsNormal
  | _, _, _, .last hItem => by
      intro hFree
      rw [List.forall_mem_singleton]
      exact hItem.isNormal hFree
  | _, _, _, .more hItem hRest => by
      intro hFree
      rw [List.forall_mem_append, List.forall_mem_cons] at hFree
      rw [List.forall_mem_cons]
      exact ⟨hItem.isNormal hFree.1, hRest.isNormal hFree.2.2⟩

end

theorem IsLevel.isNormal {tokens : List Token} {tree : Filter} (hLevel : IsLevel tokens tree)
    (hFree : ∀ token ∈ tokens, delimiter ∉ token) : tree.IsNormal := by
  obtain ⟨logic, trees, hRun, rfl⟩ := hLevel
  exact isNormal_collapse hRun.trees_ne_nil (hRun.isNormal hFree)

end Filter
end RecordFilter

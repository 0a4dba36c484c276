/-
The comparisons of a filter.

`comparisons` lists the comparisons of a tree from left to right.  Simplifying a tree
collapses every group of one member, however such groups are nested, and changes nothing
else: the comparisons stay as they are and where they are, and so do the text of the tree
and its answer on every record.
-/
import RecordFilter.Proofs.Eval.Textual

namespace RecordFilter

open Json (Value)

/-- A single comparison, apart from the tree in which it stands. -/
structure Comparison where
  field : String
  operator : String
  value : Atom

def Comparison.filter (comparison : Comparison) : Filter :=
  .leaf comparison.field comparison.operator comparison.value

namespace Filter

/-! ### The comparisons of a tree -/

mutual

def comparisons : Filter → List Comparison
  | .leaf field operator value => [⟨field, operator, value⟩]
  | .group _ children => comparisonsIn children

def comparisonsIn : List Filter → List Comparison
  | [] => []
  | child :: children => child.comparisons ++ comparisonsIn children

end

mutual

theorem leafCount_eq_length : ∀ filter : Filter, filter.leafCount = filter.comparisons.length
  | .leaf _ _ _ => rfl
  | .group _ children => leafCountAll_eq_length children

theorem leafCountAll_eq_length : ∀ children : List Filter,
    leafCountAll children = (comparisonsIn children).length
  | [] => rfl
  | child :: children => by
      rw [leafCountAll, comparisonsIn, List.length_append, leafCount_eq_length,
        leafCountAll_eq_length]

end

theorem comparisons_collapse (logic : Logic) (children : List Filter) :
    (collapse logic children).comparisons = comparisonsIn children := by
  rcases children with _ | ⟨only, _ | ⟨next, children⟩⟩
  · rfl
  · rw [collapse, comparisonsIn, comparisonsIn, List.append_nil]
  · rfl

mutual

theorem comparisons_simplify : ∀ filter : Filter,
    filter.simplify.comparisons = filter.comparisons
  | .leaf _ _ _ => rfl
  | .group logic children => by
      rw [simplify, comparisons_collapse, comparisonsIn_simplifyAll, comparisons]

theorem comparisonsIn_simplifyAll : ∀ children : List Filter,
    comparisonsIn (simplifyAll children) = comparisonsIn children
  | [] => rfl
  | child :: children => by
      rw [simplifyAll, comparisonsIn, comparisonsIn, comparisons_simplify,
        comparisonsIn_simplifyAll]

end

/-! ### Trees without groups of one member -/

mutual

/-- No group has exactly one member, at any depth. -/
def IsCollapsed : Filter → Prop
  | .leaf _ _ _ => True
  | .group _ children => children.length ≠ 1 ∧ AreCollapsed children

def AreCollapsed : List Filter → Prop
  | [] => True
  | child :: children => child.IsCollapsed ∧ AreCollapsed children

end

theorem collapse_of_length_ne {logic : Logic} {children : List Filter}
    (hLength : children.length ≠ 1) : collapse logic children = .group logic children := by
  rcases children with _ | ⟨only, _ | ⟨next, children⟩⟩
  · rfl
  · exact absurd rfl hLength
  · rfl

theorem isCollapsed_collapse (logic : Logic) {children : List Filter}
    (hChildren : AreCollapsed children) : (collapse logic children).IsCollapsed := by
  by_cases hLength : children.length = 1
  · obtain ⟨only, rfl⟩ := List.length_eq_one_iff.mp hLength
    exact hChildren.1
  · rw [collapse_of_length_ne hLength]
    exact ⟨hLength, hChildren⟩

mutual

theorem isCollapsed_simplify : ∀ filter : Filter, filter.simplify.IsCollapsed
  | .leaf _ _ _ => trivial
  | .group logic children => isCollapsed_collapse logic (areCollapsed_simplifyAll children)

theorem areCollapsed_simplifyAll : ∀ children : List Filter,
    AreCollapsed (simplifyAll children)
  | [] => trivial
  | child :: children => ⟨isCollapsed_simplify child, areCollapsed_simplifyAll children⟩

end

mutual

theorem IsCollapsed.simplify_eq : ∀ {filter : Filter}, filter.IsCollapsed →
    filter.simplify = filter
  | .leaf _ _ _, _ => rfl
  | .group logic children, hCollapsed => by
      rw [simplify, AreCollapsed.simplifyAll_eq hCollapsed.2,
        collapse_of_length_ne hCollapsed.1]

theorem AreCollapsed.simplifyAll_eq : ∀ {children : List Filter}, AreCollapsed children →
    simplifyAll children = children
  | [], _ => rfl
  | child :: children, hCollapsed => by
      rw [simplifyAll, IsCollapsed.simplify_eq hCollapsed.1,
        AreCollapsed.simplifyAll_eq hCollapsed.2]

end

/-- A simplified tree has no group of one member, keeps the comparisons in their order, and
is not simplified any further.  It has the text of the tree that it comes from, and the same
answer or the same error on every record. -/
theorem simplify_normalises (filter : Filter) :
    filter.simplify.IsCollapsed ∧
    filter.simplify.comparisons = filter.comparisons ∧
    filter.simplify.leafCount = filter.leafCount ∧
    filter.simplify.simplify = filter.simplify ∧
    filter.simplify.render = filter.render ∧
    ∀ (evaluator : Evaluator) (record : Value),
      evaluator.test record filter.simplify = evaluator.test record filter := by
  have hCollapsed := isCollapsed_simplify filter
  have hComparisons := comparisons_simplify filter
  refine ⟨hCollapsed, hComparisons, ?_, hCollapsed.simplify_eq, ?_, ?_⟩
  · rw [leafCount_eq_length, leafCount_eq_length, hComparisons]
  · rw [render, render, sameText_simplify filter true]
  · intro evaluator record
    exact Evaluator.test_simplify evaluator record filter

end Filter
end RecordFilter

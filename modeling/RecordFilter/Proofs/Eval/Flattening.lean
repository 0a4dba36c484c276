/-
Brackets within one connective.

`flat` puts the members of a group that stands directly in a group of the same connective
into that group, at the place where the inner group stood, from the inside out.  No such
group is left then, and the comparisons stay as they are and where they are.  The members
are asked in the same order and the first that decides is the same, so a tree and its flat
form have the same answer or fail with the same error on every record.
-/
import RecordFilter.Proofs.Filter.Comparisons

namespace RecordFilter

open Json (Value)

/-- The answer of a group without members, at which the members behind one are asked. -/
def Logic.unit : Logic → Bool
  | .and => true
  | .or => false

namespace Filter

/-! ### Flat trees -/

/-- The members that a member of a group stands for: its own, if it is a group of the same
connective, or else itself. -/
def spliced (logic : Logic) : Filter → List Filter
  | .leaf field operator value => [.leaf field operator value]
  | .group inner children => if inner = logic then children else [.group inner children]

mutual

/-- The tree with the members of each group that stands directly in a group of the same
connective put into that group. -/
def flat : Filter → Filter
  | .leaf field operator value => .leaf field operator value
  | .group logic children => .group logic (flatIn logic children)

def flatIn (logic : Logic) : List Filter → List Filter
  | [] => []
  | child :: children => child.flat.spliced logic ++ flatIn logic children

end

def logic? : Filter → Option Logic
  | .leaf _ _ _ => none
  | .group logic _ => some logic

theorem spliced_group (logic : Logic) (children : List Filter) :
    (group logic children).spliced logic = children :=
  if_pos rfl

theorem spliced_of_ne {logic : Logic} {filter : Filter} (hLogic : filter.logic? ≠ some logic) :
    filter.spliced logic = [filter] := by
  cases filter with
  | leaf field operator value => rfl
  | group inner children =>
      have hOther : ¬ inner = logic := fun hSame => hLogic (congrArg some hSame)
      exact if_neg hOther

theorem spliced_cases (logic : Logic) (filter : Filter) :
    (∃ children, filter = .group logic children ∧ filter.spliced logic = children) ∨
      filter.logic? ≠ some logic ∧ filter.spliced logic = [filter] := by
  by_cases hLogic : filter.logic? = some logic
  · cases filter with
    | leaf field operator value => cases hLogic
    | group inner children =>
        cases hLogic
        exact .inl ⟨children, rfl, spliced_group logic children⟩
  · exact .inr ⟨hLogic, spliced_of_ne hLogic⟩

mutual

def IsFlat : Filter → Prop
  | .leaf _ _ _ => True
  | .group logic children => AreFlatIn logic children

def AreFlatIn (logic : Logic) : List Filter → Prop
  | [] => True
  | child :: children => child.logic? ≠ some logic ∧ child.IsFlat ∧ AreFlatIn logic children

end

theorem areFlatIn_append {logic : Logic} {left right : List Filter}
    (hLeft : AreFlatIn logic left) (hRight : AreFlatIn logic right) :
    AreFlatIn logic (left ++ right) := by
  induction left with
  | nil => exact hRight
  | cons child left ih => exact ⟨hLeft.1, hLeft.2.1, ih hLeft.2.2⟩

theorem IsFlat.areFlatIn_spliced (logic : Logic) {filter : Filter} (hFlat : filter.IsFlat) :
    AreFlatIn logic (filter.spliced logic) := by
  rcases spliced_cases logic filter with ⟨children, rfl, hSpliced⟩ | ⟨hLogic, hSpliced⟩
  · rw [hSpliced]
    exact hFlat
  · rw [hSpliced]
    exact ⟨hLogic, hFlat, trivial⟩

mutual

theorem isFlat_flat : ∀ filter : Filter, filter.flat.IsFlat
  | .leaf _ _ _ => trivial
  | .group logic children => areFlatIn_flatIn logic children

theorem areFlatIn_flatIn (logic : Logic) : ∀ children : List Filter,
    AreFlatIn logic (flatIn logic children)
  | [] => trivial
  | child :: children =>
      areFlatIn_append ((isFlat_flat child).areFlatIn_spliced logic)
        (areFlatIn_flatIn logic children)

end

mutual

theorem IsFlat.flat_eq : ∀ {filter : Filter}, filter.IsFlat → filter.flat = filter
  | .leaf _ _ _, _ => rfl
  | .group logic children, hFlat => by
      rw [flat, AreFlatIn.flatIn_eq hFlat]

theorem AreFlatIn.flatIn_eq {logic : Logic} : ∀ {children : List Filter},
    AreFlatIn logic children → flatIn logic children = children
  | [], _ => rfl
  | child :: children, hFlat => by
      rw [flatIn, hFlat.2.1.flat_eq, spliced_of_ne hFlat.1, AreFlatIn.flatIn_eq hFlat.2.2]
      rfl

end

/-! ### The comparisons of a flat tree -/

theorem comparisonsIn_append (left right : List Filter) :
    comparisonsIn (left ++ right) = comparisonsIn left ++ comparisonsIn right := by
  induction left with
  | nil => rfl
  | cons child left ih =>
      rw [List.cons_append, comparisonsIn, comparisonsIn, ih, List.append_assoc]

theorem comparisonsIn_spliced (logic : Logic) (filter : Filter) :
    comparisonsIn (filter.spliced logic) = filter.comparisons := by
  rcases spliced_cases logic filter with ⟨children, rfl, hSpliced⟩ | ⟨-, hSpliced⟩
  · rw [hSpliced, comparisons]
  · rw [hSpliced, comparisonsIn, comparisonsIn, List.append_nil]

mutual

theorem comparisons_flat : ∀ filter : Filter, filter.flat.comparisons = filter.comparisons
  | .leaf _ _ _ => rfl
  | .group logic children => comparisonsIn_flatIn logic children

theorem comparisonsIn_flatIn (logic : Logic) : ∀ children : List Filter,
    comparisonsIn (flatIn logic children) = comparisonsIn children
  | [] => rfl
  | child :: children => by
      rw [flatIn, comparisonsIn_append, comparisonsIn_spliced, comparisons_flat,
        comparisonsIn_flatIn logic children, comparisonsIn]

end

end Filter

/-! ### The answers of flat trees -/

namespace Evaluator

open RecordFilter.Filter (flat flatIn spliced_cases)

variable (evaluator : Evaluator) (record : Value)

/-- A member with the answer of a group without members leaves the question to the members
behind it; any other answer and any error is that of the group. -/
theorem test_group_cons (logic : Logic) (child : Filter) (children : List Filter) :
    evaluator.test record (.group logic (child :: children)) =
      match evaluator.test record child with
      | .error error => .error error
      | .ok held =>
          if held = logic.unit then evaluator.test record (.group logic children)
          else .ok held := by
  cases logic with
  | and =>
      rw [test, testAll]
      cases evaluator.test record child with
      | error error => rfl
      | ok held => cases held <;> rfl
  | or =>
      rw [test, testAny]
      cases evaluator.test record child with
      | error error => rfl
      | ok held => cases held <;> rfl

theorem test_group_nil (logic : Logic) :
    evaluator.test record (.group logic []) = .ok logic.unit := by
  cases logic <;> rfl

theorem test_group_append (logic : Logic) (left right : List Filter) :
    evaluator.test record (.group logic (left ++ right)) =
      match evaluator.test record (.group logic left) with
      | .error error => .error error
      | .ok held =>
          if held = logic.unit then evaluator.test record (.group logic right)
          else .ok held := by
  induction left with
  | nil =>
      rw [test_group_nil, List.nil_append]
      exact (if_pos rfl).symm
  | cons child left ih =>
      rw [List.cons_append, test_group_cons, test_group_cons, ih]
      cases evaluator.test record child with
      | error error => rfl
      | ok held =>
          by_cases hUnit : held = logic.unit
          · simp only [if_pos hUnit]
          · simp only [if_neg hUnit]

theorem test_group_spliced (logic : Logic) (child : Filter) (children : List Filter) :
    evaluator.test record (.group logic (child.spliced logic ++ children)) =
      evaluator.test record (.group logic (child :: children)) := by
  rcases spliced_cases logic child with ⟨members, rfl, hSpliced⟩ | ⟨-, hSpliced⟩
  · rw [hSpliced, test_group_append, test_group_cons]
  · rw [hSpliced, List.singleton_append]

mutual

theorem test_flat : ∀ filter : Filter,
    evaluator.test record filter.flat = evaluator.test record filter
  | .leaf _ _ _ => rfl
  | .group logic children => test_flatIn logic children

theorem test_flatIn (logic : Logic) : ∀ children : List Filter,
    evaluator.test record (.group logic (flatIn logic children)) =
      evaluator.test record (.group logic children)
  | [] => rfl
  | child :: children => by
      rw [flatIn, test_group_spliced, test_group_cons, test_group_cons, test_flat child,
        test_flatIn logic children]

end

end Evaluator

/-- A flat form holds no group directly in a group of the same connective, keeps the
comparisons in their order, and is not made flatter any more.  It has the same answer or the
same error as the tree on every record, so brackets within one connective make no
difference. -/
theorem Filter.flat_keeps_answers (filter : Filter) :
    filter.flat.IsFlat ∧
    filter.flat.comparisons = filter.comparisons ∧
    filter.flat.flat = filter.flat ∧
    ∀ (evaluator : Evaluator) (record : Value),
      evaluator.test record filter.flat = evaluator.test record filter := by
  have hFlat := filter.isFlat_flat
  refine ⟨hFlat, filter.comparisons_flat, hFlat.flat_eq, ?_⟩
  intro evaluator record
  exact evaluator.test_flat record filter

/-- Two levels of one connective and an empty group in it vanish at once, and the group of
the other connective stays. -/
example :
    let a : Filter := .leaf "a" "eq" (.text "1")
    let b : Filter := .leaf "b" "eq" (.text "2")
    let either : Filter := .any [a, .all [.all [b]]]
    Filter.flat (.all [.all [], .all [.all [a, b], either], a]) =
      .all [a, b, .any [a, .all [b]], a] :=
  rfl

end RecordFilter

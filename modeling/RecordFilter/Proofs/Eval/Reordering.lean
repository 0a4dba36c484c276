/-
The order of members and the answer of a filter.

A comparison that cannot be asked has an unknown truth, and groups put unknown truths
together as strong three-valued logic does, whatever the order of their members.  An
answer of a filter is always this truth.  So another order of the members may hide an
error or let one show, but it never turns one answer into the other.
-/
import RecordFilter.Proofs.Selection.Conjunction

namespace RecordFilter

open Json (Value)

/-! ### Three-valued truth -/

inductive Truth where
  | no
  | unknown
  | yes
deriving DecidableEq, Repr

namespace Truth

def ofBool : Bool → Truth
  | false => .no
  | true => .yes

def ofAnswer : Except EvalError Bool → Truth
  | .error _ => .unknown
  | .ok held => ofBool held

/-- A conjunction fails if one side is known to fail, whatever the other. -/
def both : Truth → Truth → Truth
  | .no, _ => .no
  | _, .no => .no
  | .yes, .yes => .yes
  | _, _ => .unknown

/-- A disjunction holds if one side is known to hold, whatever the other. -/
def either : Truth → Truth → Truth
  | .yes, _ => .yes
  | _, .yes => .yes
  | .no, .no => .no
  | _, _ => .unknown

theorem ofBool_injective {held held' : Bool} (hTruth : ofBool held = ofBool held') :
    held = held' := by
  cases held <;> cases held' <;> first | rfl | cases hTruth

theorem no_both (t : Truth) : both .no t = .no := rfl

theorem yes_both (t : Truth) : both .yes t = t := by
  cases t <;> rfl

theorem both_left_comm (s t u : Truth) : both s (both t u) = both t (both s u) := by
  cases s <;> cases t <;> cases u <;> rfl

theorem yes_either (t : Truth) : either .yes t = .yes := rfl

theorem no_either (t : Truth) : either .no t = t := by
  cases t <;> rfl

theorem either_left_comm (s t u : Truth) : either s (either t u) = either t (either s u) := by
  cases s <;> cases t <;> cases u <;> rfl

end Truth

/-! ### The truth of a filter -/

namespace Evaluator

variable (evaluator : Evaluator) (record : Value)

mutual

def truth : Filter → Truth
  | .leaf field operator value =>
      .ofAnswer (evaluator.testLeaf field operator value record)
  | .group .and children => truthOfAll children
  | .group .or children => truthOfAny children

def truthOfAll : List Filter → Truth
  | [] => .yes
  | child :: children => (truth child).both (truthOfAll children)

def truthOfAny : List Filter → Truth
  | [] => .no
  | child :: children => (truth child).either (truthOfAny children)

end

mutual

theorem truth_of_test : ∀ (filter : Filter) {held : Bool},
    evaluator.test record filter = .ok held → evaluator.truth record filter = .ofBool held
  | .leaf field operator value, held, hTest => by
      rw [test] at hTest
      rw [truth, hTest]
      rfl
  | .group .and children, held, hTest => by
      rw [test] at hTest
      rw [truth]
      exact truthOfAll_of_testAll children hTest
  | .group .or children, held, hTest => by
      rw [test] at hTest
      rw [truth]
      exact truthOfAny_of_testAny children hTest

theorem truthOfAll_of_testAll : ∀ (children : List Filter) {held : Bool},
    evaluator.testAll record children = .ok held →
      evaluator.truthOfAll record children = .ofBool held
  | [], held, hTest => by
      rw [testAll] at hTest
      cases hTest
      rfl
  | child :: children, held, hTest => by
      rw [testAll] at hTest
      rw [truthOfAll]
      cases hChild : evaluator.test record child with
      | error error =>
          rw [hChild] at hTest
          cases hTest
      | ok answer =>
          rw [hChild] at hTest
          rw [truth_of_test child hChild]
          cases answer with
          | false =>
              -- the members behind are not asked, and make no difference
              cases hTest
              exact Truth.no_both _
          | true =>
              rw [truthOfAll_of_testAll children hTest]
              exact Truth.yes_both _

theorem truthOfAny_of_testAny : ∀ (children : List Filter) {held : Bool},
    evaluator.testAny record children = .ok held →
      evaluator.truthOfAny record children = .ofBool held
  | [], held, hTest => by
      rw [testAny] at hTest
      cases hTest
      rfl
  | child :: children, held, hTest => by
      rw [testAny] at hTest
      rw [truthOfAny]
      cases hChild : evaluator.test record child with
      | error error =>
          rw [hChild] at hTest
          cases hTest
      | ok answer =>
          rw [hChild] at hTest
          rw [truth_of_test child hChild]
          cases answer with
          | false =>
              rw [truthOfAny_of_testAny children hTest]
              exact Truth.no_either _
          | true =>
              cases hTest
              exact Truth.yes_either _

end

end Evaluator

/-! ### Other orders -/

/-- The same tree with the members of any groups, at any depth, in another order. -/
inductive Filter.Reordered : Filter → Filter → Prop where
  | refl (filter : Filter) : Reordered filter filter
  | permuted (logic : Logic) {children others : List Filter} (hPerm : children.Perm others) :
      Reordered (.group logic children) (.group logic others)
  | inside (logic : Logic) (before after : List Filter) {child other : Filter}
      (hChild : Reordered child other) :
      Reordered (.group logic (before ++ child :: after))
        (.group logic (before ++ other :: after))
  | trans {filter other last : Filter} (hFirst : Reordered filter other)
      (hSecond : Reordered other last) : Reordered filter last

namespace Evaluator

variable {evaluator : Evaluator} {record : Value}

theorem truthOfAll_of_perm {children others : List Filter} (hPerm : children.Perm others) :
    evaluator.truthOfAll record children = evaluator.truthOfAll record others := by
  induction hPerm with
  | nil => rfl
  | cons child hRest ih => rw [truthOfAll, truthOfAll, ih]
  | swap first second rest =>
      simp only [truthOfAll]
      exact Truth.both_left_comm _ _ _
  | trans hFirst hSecond ihFirst ihSecond => exact ihFirst.trans ihSecond

theorem truthOfAny_of_perm {children others : List Filter} (hPerm : children.Perm others) :
    evaluator.truthOfAny record children = evaluator.truthOfAny record others := by
  induction hPerm with
  | nil => rfl
  | cons child hRest ih => rw [truthOfAny, truthOfAny, ih]
  | swap first second rest =>
      simp only [truthOfAny]
      exact Truth.either_left_comm _ _ _
  | trans hFirst hSecond ihFirst ihSecond => exact ihFirst.trans ihSecond

theorem truthOfAll_inside {child other : Filter}
    (hChild : evaluator.truth record child = evaluator.truth record other)
    (before after : List Filter) :
    evaluator.truthOfAll record (before ++ child :: after) =
      evaluator.truthOfAll record (before ++ other :: after) := by
  induction before with
  | nil => rw [List.nil_append, List.nil_append, truthOfAll, truthOfAll, hChild]
  | cons first before ih =>
      rw [List.cons_append, List.cons_append, truthOfAll, truthOfAll, ih]

theorem truthOfAny_inside {child other : Filter}
    (hChild : evaluator.truth record child = evaluator.truth record other)
    (before after : List Filter) :
    evaluator.truthOfAny record (before ++ child :: after) =
      evaluator.truthOfAny record (before ++ other :: after) := by
  induction before with
  | nil => rw [List.nil_append, List.nil_append, truthOfAny, truthOfAny, hChild]
  | cons first before ih =>
      rw [List.cons_append, List.cons_append, truthOfAny, truthOfAny, ih]

theorem truth_of_reordered {filter other : Filter} (hReordered : filter.Reordered other) :
    evaluator.truth record filter = evaluator.truth record other := by
  induction hReordered with
  | refl filter => rfl
  | permuted logic hPerm =>
      cases logic with
      | and => exact truthOfAll_of_perm hPerm
      | or => exact truthOfAny_of_perm hPerm
  | inside logic before after hChild ih =>
      cases logic with
      | and => exact truthOfAll_inside ih before after
      | or => exact truthOfAny_inside ih before after
  | trans hFirst hSecond ihFirst ihSecond => exact ihFirst.trans ihSecond

end Evaluator

theorem Selection.isMatch_eq_test_all (selection : Selection) (evaluator : Evaluator)
    (record : Value) :
    selection.isMatch evaluator record = evaluator.test record (.all selection.clauses) := by
  rw [Selection.isMatch, Selection.holdAll_eq_testAll]
  rfl

/-- Every answer of a filter is its three-valued truth, in which comparisons that cannot be
asked are unknown and which the order of members does not change.  So filters that differ in
the order of members only have the same answer, or one of them has none.  The same is said
of the clauses of selections. -/
theorem Evaluator.answer_of_reordered (evaluator : Evaluator) (record : Value) :
    (∀ filter held, evaluator.test record filter = .ok held →
      evaluator.truth record filter = .ofBool held) ∧
    (∀ filter other : Filter, filter.Reordered other →
      evaluator.truth record filter = evaluator.truth record other ∧
        ∀ held held', evaluator.test record filter = .ok held →
          evaluator.test record other = .ok held' → held = held') ∧
    (∀ (selection : Selection) held, selection.isMatch evaluator record = .ok held →
      evaluator.truthOfAll record selection.clauses = .ofBool held) ∧
    ∀ selection other : Selection,
      (Filter.all selection.clauses).Reordered (.all other.clauses) →
        ∀ held held', selection.isMatch evaluator record = .ok held →
          other.isMatch evaluator record = .ok held' → held = held' := by
  have hTruth : ∀ filter held, evaluator.test record filter = .ok held →
      evaluator.truth record filter = .ofBool held :=
    fun filter _ hTest => evaluator.truth_of_test record filter hTest
  have hSame : ∀ filter other : Filter, filter.Reordered other → ∀ held held',
      evaluator.test record filter = .ok held → evaluator.test record other = .ok held' →
        held = held' := by
    intro filter other hReordered held held' hTest hOther
    apply Truth.ofBool_injective
    rw [← hTruth filter held hTest, ← hTruth other held' hOther]
    exact truth_of_reordered hReordered
  refine ⟨hTruth, ?_, ?_, ?_⟩
  · intro filter other hReordered
    exact ⟨truth_of_reordered hReordered, hSame filter other hReordered⟩
  · intro selection held hMatch
    rw [selection.isMatch_eq_test_all] at hMatch
    exact hTruth _ held hMatch
  · intro selection other hReordered held held' hMatch hOther
    rw [Selection.isMatch_eq_test_all] at hMatch hOther
    exact hSame _ _ hReordered held held' hMatch hOther

/-- An unsupported operator behind a member that decides, and in front of it: the first
order has an answer and the second has none, but both have one truth.  Two selections of
such clauses that have answers have the same. -/
theorem Evaluator.answer_of_reordered_unsupported :
    let evaluator : Evaluator := ⟨"", default⟩
    let record : Value := .object [("a", .text "x")]
    let holds : Filter := .leaf "a" "eq" (.text "x")
    let fails : Filter := .leaf "a" "eq" (.text "y")
    let unasked : Filter := .leaf "a" "like" (.text "x")
    let filter : Filter := .all [holds, .any [holds, unasked]]
    let other : Filter := .all [.any [unasked, holds], holds]
    (filter.Reordered other ∧ evaluator.test record filter = .ok true ∧
      evaluator.test record other = .error (.unsupportedOperator "like") ∧
      evaluator.truth record other = .yes) ∧
    ∃ held, Selection.isMatch ⟨[holds, fails, unasked], false⟩ evaluator record = .ok held ∧
      Selection.isMatch ⟨[fails, unasked, holds], false⟩ evaluator record = .ok held := by
  intro evaluator record holds fails unasked filter other
  have hSwap : Filter.Reordered (.any [holds, unasked]) (.any [unasked, holds]) :=
    .permuted .or (.swap _ _ _)
  have hReordered : filter.Reordered other :=
    (Filter.Reordered.inside .and [holds] [] hSwap).trans (.permuted .and (.swap _ _ _))
  have hTest : evaluator.test record filter = .ok true := by
    cbv
  have hOther : evaluator.test record other = .error (.unsupportedOperator "like") := by
    cbv
  obtain ⟨hTruth, hSame, -, hClauses⟩ := answer_of_reordered evaluator record
  refine ⟨⟨hReordered, hTest, hOther, ?_⟩, ?_⟩
  · rw [← (hSame filter other hReordered).1]
    exact hTruth filter true hTest
  · have hPerm : [holds, fails, unasked].Perm [fails, unasked, holds] :=
      (List.Perm.swap _ _ _).trans (.cons _ (.swap _ _ _))
    have hMatch : Selection.isMatch ⟨[holds, fails, unasked], false⟩ evaluator record =
        .ok false := by
      cbv
    have hOtherMatch : ∃ held,
        Selection.isMatch ⟨[fails, unasked, holds], false⟩ evaluator record = .ok held :=
      ⟨false, by cbv⟩
    obtain ⟨held, hHeld⟩ := hOtherMatch
    have hEqual := hClauses ⟨[holds, fails, unasked], false⟩ ⟨[fails, unasked, holds], false⟩
      (.permuted .and hPerm) false held hMatch hHeld
    subst hEqual
    exact ⟨false, hMatch, hHeld⟩

end RecordFilter

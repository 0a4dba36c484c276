/-
Several clauses as one.

Clauses that are added one after the other mean one text in which each of them
stands in brackets and `and` joins them, whatever brackets and connectives they
hold themselves.  And asking the clauses one by one gives the answer of the one
filter they make together, errors included.
-/
import Mathlib
import RecordFilter.Proofs.Filter.Spelling
import RecordFilter.Selection

namespace RecordFilter

open RecordFilter.Filter (parse)
open Json (Value)

/-! ### The text of a conjunction -/

namespace Filter

def bracketed (text : String) : String := "(" ++ text ++ ")"

/-- Some texts in brackets, joined by `and`. -/
def conjunction (clauses : List String) : String :=
  String.intercalate "~and~" (clauses.map bracketed)

theorem conjunction_single (clause : String) : conjunction [clause] = bracketed clause := by
  rw [conjunction, List.map_cons, List.map_nil, String.intercalate_singleton]

theorem conjunction_cons_cons (clause next : String) (clauses : List String) :
    conjunction (clause :: next :: clauses) =
      bracketed clause ++ "~and~" ++ conjunction (next :: clauses) := by
  simp only [conjunction, List.map_cons, String.intercalate_cons_cons]

theorem join_enclose_split (clause : String) :
    Text.join delimiter (enclose (Text.split delimiter clause.toList)) =
      (bracketed clause).toList := by
  rw [join_enclose (Text.split_ne_nil delimiter clause.toList), Text.join_split]
  simp [bracketed, leftBracket, rightBracket]

/-- The tokens of clauses in brackets, joined by `and`, are a run of their trees. -/
theorem exists_run_of_clauses {clauses : List String} {trees : List Filter}
    (hParsed : List.Forall₂ (fun clause tree => parse clause = .ok (some tree)) clauses trees)
    (hSome : clauses ≠ []) :
    ∃ tokens, IsRun .and tokens trees ∧ (∀ token ∈ tokens, delimiter ∉ token) ∧
      Text.join delimiter tokens = (conjunction clauses).toList := by
  induction hParsed with
  | nil => exact absurd rfl hSome
  | @cons clause tree clauses trees hHead hRest ih =>
      have hItem := (parse_eq_ok_some_iff.mp hHead).isItem_enclose
      have hFree := (loosens_enclose (Text.split delimiter clause.toList)).delimiter_free_iff.mpr
        fun _ => Text.not_mem_of_mem_split
      have hJoin := join_enclose_split clause
      cases hRest with
      | nil =>
          refine ⟨_, .last hItem, hFree, ?_⟩
          rw [hJoin, conjunction_single]
      | @cons next other clauses trees hNext hMore =>
          obtain ⟨tokens, hRun, hRunFree, hRunJoin⟩ := ih (List.cons_ne_nil next clauses)
          refine ⟨_, .more hItem hRun, ?_, ?_⟩
          · rw [List.forall_mem_append, List.forall_mem_cons]
            exact ⟨hFree, delimiter_not_mem_word .and, hRunFree⟩
          · rw [join_connective .and hItem.isLevel.ne_nil hRun.ne_nil, hJoin, hRunJoin,
              conjunction_cons_cons]
            simp [connective, Logic.word, delimiter]

/-- Reading is compositional under brackets: several clauses in brackets, joined by `and`,
are read as the group of the trees they are read as. -/
theorem parse_conjunction {clauses : List String} {trees : List Filter}
    (hParsed : List.Forall₂ (fun clause tree => parse clause = .ok (some tree)) clauses trees)
    (hSome : clauses ≠ []) :
    parse (conjunction clauses) = .ok (some (collapse .and trees)) := by
  obtain ⟨tokens, hRun, hFree, hJoin⟩ := exists_run_of_clauses hParsed hSome
  rw [parse_eq_ok_some_iff, ← hJoin, Text.split_join hRun.ne_nil hFree]
  exact ⟨.and, trees, hRun, rfl⟩

theorem parse_eq_ok_none_iff {input : String} : parse input = .ok none ↔ input = "" := by
  constructor
  · intro hParse
    unfold parse at hParse
    split at hParse
    · assumption
    · split at hParse
      · cases hParse
      · split at hParse
        · cases hParse
        · cases hParse
  · rintro rfl
    rfl

end Filter

/-! ### Clauses one after the other -/

namespace Selection

theorem exists_foldlM_addText (clauses : List String) (selection : Selection)
    (hParsed : ∀ clause ∈ clauses, ∃ filter, parse clause = .ok filter) :
    ∃ trees, clauses.foldlM addText selection =
        .ok { selection with clauses := selection.clauses ++ trees } ∧
      List.Forall₂ (fun clause tree => parse clause = .ok (some tree))
        (clauses.filter (· ≠ "")) trees := by
  induction clauses generalizing selection with
  | nil =>
      refine ⟨[], ?_, .nil⟩
      rw [List.append_nil]
      rfl
  | cons clause clauses ih =>
      rw [List.forall_mem_cons] at hParsed
      obtain ⟨⟨found, hFound⟩, hRest⟩ := hParsed
      cases found with
      | none =>
          obtain ⟨trees, hFold, hTrees⟩ := ih selection hRest
          have hEmpty := Filter.parse_eq_ok_none_iff.mp hFound
          subst hEmpty
          have hStep : addText selection "" = .ok selection := rfl
          refine ⟨trees, ?_, ?_⟩
          · rw [List.foldlM_cons, hStep]
            exact hFold
          · exact hTrees
      | some tree =>
          obtain ⟨trees, hFold, hTrees⟩ := ih (selection.addFilter tree) hRest
          have hClause : clause ≠ "" := by
            rintro rfl
            cases hFound
          have hStep : addText selection clause = .ok (selection.addFilter tree) := by
            rw [addText, hFound]
          refine ⟨tree :: trees, ?_, ?_⟩
          · simp only [addFilter, List.append_assoc, List.singleton_append] at hFold hStep
            rw [List.foldlM_cons, hStep]
            exact hFold
          · rw [List.filter_cons_of_pos (by simpa using hClause)]
            exact .cons hFound hTrees

/-! ### The clauses of a selection as one filter -/

/-- Asking clauses in order is asking the members of a group under `and`. -/
theorem holdAll_eq_testAll (evaluator : Evaluator) (record : Value) (clauses : List Filter) :
    holdAll evaluator record clauses = evaluator.testAll record clauses := by
  induction clauses with
  | nil => rfl
  | cons clause clauses ih =>
      rw [holdAll, Evaluator.testAll]
      cases evaluator.test record clause with
      | error error => rfl
      | ok held =>
          cases held with
          | false => rfl
          | true => exact ih

/-- A group of one member under `and` has the answer of the member. -/
theorem testAll_single (evaluator : Evaluator) (record : Value) (only : Filter) :
    evaluator.testAll record [only] = evaluator.test record only := by
  simp only [Evaluator.testAll]
  cases evaluator.test record only with
  | error error => rfl
  | ok held => cases held <;> rfl

theorem isMatch_eq_test (selection : Selection) (evaluator : Evaluator) (record : Value) :
    selection.isMatch evaluator record =
      match selection.filter? with
      | none => .ok true
      | some filter => evaluator.test record filter := by
  obtain ⟨clauses, isDistinct⟩ := selection
  rw [isMatch, holdAll_eq_testAll]
  rcases clauses with _ | ⟨only, _ | ⟨next, clauses⟩⟩
  · rfl
  · exact testAll_single evaluator record only
  · rfl

/-- Clauses that can be read make no filter if all are empty, the filter of the only one
that is not, or the filter of their conjunction.  And the clauses of any selection hold
for a record exactly when their filter does, with the same error if there is one. -/
theorem filter?_is_conjunction :
    (∀ clauses : List String, (∀ clause ∈ clauses, ∃ filter, parse clause = .ok filter) →
      ∃ selection, clauses.foldlM addText {} = .ok selection ∧
        match clauses.filter (· ≠ "") with
        | [] => selection.filter? = none
        | [only] => parse only = .ok selection.filter?
        | several => ∃ filter, selection.filter? = some filter ∧
            parse (Filter.conjunction several) = .ok (some filter)) ∧
    ∀ (selection : Selection) (evaluator : Evaluator) (record : Value),
      selection.isMatch evaluator record =
        match selection.filter? with
        | none => .ok true
        | some filter => evaluator.test record filter := by
  refine ⟨?_, isMatch_eq_test⟩
  intro clauses hParsed
  obtain ⟨trees, hFold, hTrees⟩ := exists_foldlM_addText clauses {} hParsed
  refine ⟨_, hFold, ?_⟩
  generalize clauses.filter (· ≠ "") = given at hTrees
  cases hTrees with
  | nil => rfl
  | @cons clause tree others trees hFirst hRest =>
      have hConjunction := Filter.parse_conjunction (.cons hFirst hRest)
        (List.cons_ne_nil clause others)
      cases hRest with
      | nil => exact hFirst
      | @cons next other more trees hNext hMore =>
          exact ⟨.all (tree :: other :: trees), rfl, hConjunction⟩

/-- Two clauses, one with another connective and one in brackets, and an empty one. -/
theorem filter?_of_two_clauses :
    ∃ selection, ["a~eq~1~or~b~eq~2", "", "(c~eq~3)"].foldlM addText {} = .ok selection ∧
      ∃ filter, selection.filter? = some filter ∧
        parse (Filter.conjunction ["a~eq~1~or~b~eq~2", "(c~eq~3)"]) = .ok (some filter) := by
  have hFirst : parse "a~eq~1~or~b~eq~2" =
      .ok (some (.any [.leaf "a" "eq" (.text "1"), .leaf "b" "eq" (.text "2")])) := by
    rw [Filter.parse_eq_ofTokens]
    cbv
  have hSecond : parse "(c~eq~3)" = .ok (some (.leaf "c" "eq" (.text "3"))) := by
    rw [Filter.parse_eq_ofTokens]
    cbv
  have hParsed : ∀ clause ∈ ["a~eq~1~or~b~eq~2", "", "(c~eq~3)"],
      ∃ filter, parse clause = .ok filter := by
    simp only [List.forall_mem_cons]
    exact ⟨⟨_, hFirst⟩, ⟨none, rfl⟩, ⟨_, hSecond⟩, by simp⟩
  exact filter?_is_conjunction.1 _ hParsed

end Selection
end RecordFilter

/-
Selections one after another.

Selecting from what was selected asks the second clauses only for the records that
match the first ones, and sees no record that was dropped as repeated.  Both make
no difference to one selection with all clauses, because equal records have equal
answers, so that repeated records may be dropped before or after others are refused.
-/
import RecordFilter.Proofs.Selection.Distinct

namespace RecordFilter

open Json (Value)

namespace Selection

variable (selection : Selection) (evaluator : Evaluator)

/-! ### One selection after another -/

/-- The clauses of two selections in order; repeated records are dropped if one of the two
drops them. -/
def followedBy (first second : Selection) : Selection where
  clauses := first.clauses ++ second.clauses
  isDistinct := first.isDistinct || second.isDistinct

theorem holdAll_append (record : Value) (clauses more : List Filter) :
    holdAll evaluator record (clauses ++ more) =
      match holdAll evaluator record clauses with
      | .error error => .error error
      | .ok false => .ok false
      | .ok true => holdAll evaluator record more := by
  induction clauses with
  | nil => rfl
  | cons clause clauses ih =>
      rw [List.cons_append, holdAll, holdAll]
      cases evaluator.test record clause with
      | error error => rfl
      | ok held =>
          cases held with
          | false => rfl
          | true => exact ih

section Sequence

variable (first second : Selection)

theorem isMatch_followedBy (record : Value) :
    (first.followedBy second).isMatch evaluator record =
      match first.isMatch evaluator record with
      | .error error => .error error
      | .ok false => .ok false
      | .ok true => second.isMatch evaluator record :=
  holdAll_append evaluator record first.clauses second.clauses

theorem answers_followedBy {records : List Value} :
    (first.followedBy second).Answers evaluator records ↔
      first.Answers evaluator records ∧
        second.Answers evaluator (records.filter (first.selects evaluator)) := by
  constructor
  · intro hAnswers
    constructor
    · intro record hMem
      obtain ⟨held, hHeld⟩ := hAnswers record hMem
      rw [isMatch_followedBy] at hHeld
      cases hFirst : first.isMatch evaluator record with
      | error error =>
          rw [hFirst] at hHeld
          cases hHeld
      | ok answer => exact ⟨answer, rfl⟩
    · intro record hKept
      obtain ⟨hMem, hSelects⟩ := List.mem_filter.1 hKept
      obtain ⟨held, hHeld⟩ := hAnswers record hMem
      rw [isMatch_followedBy, (first.selects_iff evaluator).1 hSelects] at hHeld
      exact ⟨held, hHeld⟩
  · rintro ⟨hFirst, hSecond⟩ record hMem
    rw [isMatch_followedBy]
    obtain ⟨held, hHeld⟩ := hFirst record hMem
    rw [hHeld]
    cases held with
    | false => exact ⟨false, rfl⟩
    | true =>
        have hSelects := (first.selects_iff evaluator).2 hHeld
        exact hSecond record (List.mem_filter.2 ⟨hMem, hSelects⟩)

theorem selects_followedBy (record : Value) :
    (first.followedBy second).selects evaluator record =
      (second.selects evaluator record && first.selects evaluator record) := by
  rw [selects, isMatch_followedBy, Bool.and_comm, selects]
  cases first.isMatch evaluator record with
  | error error => rfl
  | ok held =>
      cases held with
      | false => rfl
      | true => rfl

theorem filter_followedBy (records : List Value) :
    records.filter ((first.followedBy second).selects evaluator) =
      (records.filter (first.selects evaluator)).filter (second.selects evaluator) := by
  rw [List.filter_filter, funext (selects_followedBy evaluator first second)]

theorem answers_unrepeated {records : List Value} :
    second.Answers evaluator (first.unrepeated records) ↔ second.Answers evaluator records := by
  rw [unrepeated]
  split
  · constructor
    · intro hAnswers record hMem
      exact hAnswers record (mem_dropRepeated.2 ⟨hMem, List.not_mem_nil⟩)
    · intro hAnswers record hMem
      exact hAnswers record (mem_dropRepeated.1 hMem).1
  · rfl

theorem unrepeated_followedBy (records : List Value) :
    (first.followedBy second).unrepeated (records.filter (second.selects evaluator)) =
      second.unrepeated ((first.unrepeated records).filter (second.selects evaluator)) := by
  obtain ⟨clauses, isDistinct⟩ := first
  obtain ⟨more, dropsMore⟩ := second
  cases isDistinct with
  | false => cases dropsMore <;> rfl
  | true =>
      cases dropsMore with
      | false => exact dropRepeated_filter _ [] records
      | true =>
          simp only [unrepeated, followedBy, Bool.or_self, if_true]
          rw [← dropRepeated_filter, dropRepeated_twice]

end Sequence

theorem unrepeated_sublist (records : List Value) :
    (selection.unrepeated records).Sublist records := by
  rw [unrepeated]
  split
  · exact dropRepeated_sublist [] records
  · exact List.Sublist.refl records

theorem unrepeated_twice (records : List Value) :
    selection.unrepeated (selection.unrepeated records) = selection.unrepeated records := by
  rw [unrepeated, unrepeated]
  split
  · exact dropRepeated_twice records
  · rfl

/-- Selecting from what was selected is one selection with the clauses of both.  So
further clauses only remove records, and selecting once more removes none. -/
theorem apply_followedBy (first second : Selection) (evaluator : Evaluator)
    (records : List Value) :
    (∀ found, (first.followedBy second).apply evaluator records = .ok found ↔
      ∃ held, first.apply evaluator records = .ok held ∧
        second.apply evaluator held = .ok found) ∧
    (∀ held found, first.apply evaluator records = .ok held →
      (first.followedBy second).apply evaluator records = .ok found → found.Sublist held) ∧
    ∀ held, first.apply evaluator records = .ok held →
      first.apply evaluator held = .ok held := by
  have hStages : ∀ found, (first.followedBy second).apply evaluator records = .ok found ↔
      ∃ held, first.apply evaluator records = .ok held ∧
        second.apply evaluator held = .ok found := by
    intro found
    simp only [apply_eq_ok_iff]
    rw [answers_followedBy, filter_followedBy, unrepeated_followedBy]
    constructor
    · rintro ⟨⟨hFirst, hSecond⟩, hFound⟩
      exact ⟨_, ⟨hFirst, rfl⟩, (answers_unrepeated evaluator first second).2 hSecond, hFound⟩
    · rintro ⟨held, ⟨hFirst, rfl⟩, hSecond, hFound⟩
      exact ⟨⟨hFirst, (answers_unrepeated evaluator first second).1 hSecond⟩, hFound⟩
  refine ⟨hStages, ?_, ?_⟩
  · intro held found hHeld hFound
    obtain ⟨again, hAgain, hSecond⟩ := (hStages found).1 hFound
    rw [hHeld] at hAgain
    cases hAgain
    obtain ⟨-, rfl⟩ := (second.apply_eq_ok_iff evaluator).1 hSecond
    exact (second.unrepeated_sublist _).trans List.filter_sublist
  · intro held hHeld
    obtain ⟨hAnswers, rfl⟩ := (first.apply_eq_ok_iff evaluator).1 hHeld
    have hSelected : ∀ record ∈ first.unrepeated (records.filter (first.selects evaluator)),
        record ∈ records ∧ first.selects evaluator record = true := by
      intro record hMem
      exact List.mem_filter.1 ((first.unrepeated_sublist _).subset hMem)
    rw [apply_eq_ok_iff]
    constructor
    · intro record hMem
      exact hAnswers record (hSelected record hMem).1
    · rw [List.filter_eq_self.2 fun record hMem => (hSelected record hMem).2, unrepeated_twice]

/-- Two numbers above a bound, one of them twice, of which the second selection keeps the
larger one. -/
theorem apply_followedBy_bounds :
    let first : Selection := ⟨[.leaf "a" "gt" (.integer 1)], true⟩
    let second : Selection := ⟨[.leaf "a" "gt" (.integer 2)], false⟩
    let evaluator : Evaluator := ⟨"", default⟩
    let two : Value := .object [("a", .integer ⟨2, by decide, by decide⟩)]
    let three : Value := .object [("a", .integer ⟨3, by decide, by decide⟩)]
    first.apply evaluator [two, three, two] = .ok [two, three] ∧
      (first.followedBy second).apply evaluator [two, three, two] = .ok [three] ∧
      [three].Sublist [two, three] ∧
      first.apply evaluator [two, three] = .ok [two, three] := by
  intro first second evaluator two three
  have hFirst : first.apply evaluator [two, three, two] = .ok [two, three] := by
    cbv
  have hSecond : second.apply evaluator [two, three] = .ok [three] := by
    cbv
  have hSteps := apply_followedBy first second evaluator [two, three, two]
  have hBoth := (hSteps.1 _).2 ⟨_, hFirst, hSecond⟩
  exact ⟨hFirst, hBoth, hSteps.2.1 _ _ hFirst hBoth, hSteps.2.2 _ hFirst⟩

end Selection
end RecordFilter

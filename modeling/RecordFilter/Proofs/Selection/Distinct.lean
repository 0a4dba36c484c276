/-
What a selection keeps.

The records for which all clauses hold are kept in their order, and the first
record that cannot be asked decides the error.  Repeated records are told by
their texts; since texts tell values apart, a record is dropped exactly when an
equal one was kept before it.
-/
import RecordFilter.Selection
import RecordFilter.Proofs.Json.Printed

namespace RecordFilter

open Json (Value)

/-! ### Records at positions -/

def KeepsExactly (records : List Value) (kept : Fin records.length → Prop)
    (found : List Value) : Prop :=
  ∃ positions : List (Fin records.length),
    positions.Pairwise (· < ·) ∧ (∀ i, i ∈ positions ↔ kept i) ∧
      found = positions.map records.get

namespace KeepsExactly

variable {record : Value} {records found : List Value} {kept : Fin records.length → Prop}
  {keptNow : Fin (record :: records).length → Prop}

theorem nil (keptNone : Fin ([] : List Value).length → Prop) : KeepsExactly [] keptNone [] :=
  ⟨[], .nil, fun i => i.elim0, rfl⟩

theorem congr {other : Fin records.length → Prop} (hKeeps : KeepsExactly records kept found)
    (hSame : ∀ i, kept i ↔ other i) : KeepsExactly records other found := by
  obtain ⟨positions, hOrder, hMem, hFound⟩ := hKeeps
  exact ⟨positions, hOrder, fun i => (hMem i).trans (hSame i), hFound⟩

theorem pairwise_succ {n : Nat} {positions : List (Fin n)} (hOrder : positions.Pairwise (· < ·)) :
    (positions.map Fin.succ).Pairwise (· < ·) := by
  rw [List.pairwise_map]
  exact hOrder.imp fun hLess => Fin.succ_lt_succ_iff.2 hLess

theorem drop (hRest : KeepsExactly records kept found) (hFirst : ¬keptNow ⟨0, Nat.succ_pos _⟩)
    (hLater : ∀ i : Fin records.length, keptNow i.succ ↔ kept i) :
    KeepsExactly (record :: records) keptNow found := by
  obtain ⟨positions, hOrder, hMem, hFound⟩ := hRest
  refine ⟨positions.map Fin.succ, pairwise_succ hOrder, ?_, ?_⟩
  · intro i
    cases i using Fin.cases with
    | zero => simpa using hFirst
    | succ i => simp [hMem, hLater]
  · rw [hFound, List.map_map]
    rfl

theorem keep (hRest : KeepsExactly records kept found) (hFirst : keptNow ⟨0, Nat.succ_pos _⟩)
    (hLater : ∀ i : Fin records.length, keptNow i.succ ↔ kept i) :
    KeepsExactly (record :: records) keptNow (record :: found) := by
  obtain ⟨positions, hOrder, hMem, hFound⟩ := hRest
  refine ⟨⟨0, Nat.succ_pos _⟩ :: positions.map Fin.succ, ?_, ?_, ?_⟩
  · refine List.Pairwise.cons ?_ (pairwise_succ hOrder)
    intro i hLater
    obtain ⟨j, -, rfl⟩ := List.mem_map.1 hLater
    exact Nat.succ_pos j
  · intro i
    cases i using Fin.cases with
    | zero => simpa using hFirst
    | succ i =>
        rw [List.mem_cons, hLater, ← hMem]
        constructor
        · rintro (hZero | hMap)
          · exact absurd hZero (Fin.succ_ne_zero i)
          · obtain ⟨j, hPosition, hSame⟩ := List.mem_map.1 hMap
            rwa [← Fin.succ_injective _ hSame]
        · intro hPosition
          exact .inr (List.mem_map_of_mem hPosition)
  · rw [hFound, List.map_cons, List.map_map]
    rfl

end KeepsExactly

namespace Selection

/-! ### Repeated records -/

theorem mem_dropRepeated {record : Value} {seen : List (List Char)} {records : List Value} :
    record ∈ dropRepeated seen records ↔ record ∈ records ∧ record.write ∉ seen := by
  induction records generalizing seen with
  | nil => simp [dropRepeated]
  | cons first records ih =>
      rw [dropRepeated]
      by_cases hSeen : first.write ∈ seen
      · rw [if_pos (List.contains_iff_mem.2 hSeen), ih, List.mem_cons]
        constructor
        · intro hMem
          exact ⟨.inr hMem.1, hMem.2⟩
        · rintro ⟨rfl | hMem, hNew⟩
          · exact absurd hSeen hNew
          · exact ⟨hMem, hNew⟩
      · rw [if_neg (mt List.contains_iff_mem.1 hSeen), List.mem_cons, ih, List.mem_cons,
          List.mem_cons, Value.write_inj]
        constructor
        · rintro (rfl | ⟨hMem, hNew⟩)
          · exact ⟨.inl rfl, hSeen⟩
          · exact ⟨.inr hMem, fun hOld => hNew (.inr hOld)⟩
        · rintro ⟨hMem, hNew⟩
          by_cases hFirst : record = first
          · exact .inl hFirst
          · refine .inr ⟨hMem.resolve_left hFirst, ?_⟩
            rintro (hSame | hOld)
            · exact hFirst hSame
            · exact hNew hOld

theorem nodup_dropRepeated (seen : List (List Char)) (records : List Value) :
    (dropRepeated seen records).Nodup := by
  induction records generalizing seen with
  | nil => exact List.nodup_nil
  | cons first records ih =>
      rw [dropRepeated]
      split
      · exact ih seen
      · refine List.nodup_cons.2 ⟨?_, ih _⟩
        intro hMem
        exact (mem_dropRepeated.1 hMem).2 List.mem_cons_self

theorem dropRepeated_sublist (seen : List (List Char)) (records : List Value) :
    (dropRepeated seen records).Sublist records := by
  induction records generalizing seen with
  | nil => exact .slnil
  | cons first records ih =>
      rw [dropRepeated]
      split
      · exact (ih seen).cons first
      · exact (ih _).cons_cons first

theorem dropRepeated_congr {seen others : List (List Char)} {records : List Value}
    (hSeen : ∀ record ∈ records, record.write ∈ seen ↔ record.write ∈ others) :
    dropRepeated seen records = dropRepeated others records := by
  induction records generalizing seen others with
  | nil => rfl
  | cons first records ih =>
      rw [List.forall_mem_cons] at hSeen
      obtain ⟨hFirst, hLater⟩ := hSeen
      have hContains : seen.contains first.write = others.contains first.write := by
        rw [Bool.eq_iff_iff, List.contains_iff_mem, List.contains_iff_mem, hFirst]
      have hRest : ∀ record ∈ records,
          record.write ∈ first.write :: seen ↔ record.write ∈ first.write :: others := by
        intro record hMem
        rw [List.mem_cons, List.mem_cons, hLater record hMem]
      rw [dropRepeated, dropRepeated, hContains, ih hLater, ih hRest]

/-- It makes no difference whether repeated records are dropped before or after those that
some test refuses. -/
theorem dropRepeated_filter (test : Value → Bool) (seen : List (List Char))
    (records : List Value) :
    dropRepeated seen (records.filter test) = (dropRepeated seen records).filter test := by
  induction records generalizing seen with
  | nil => rfl
  | cons first records ih =>
      rw [dropRepeated]
      by_cases hTest : test first = true
      · rw [List.filter_cons_of_pos hTest, dropRepeated, ih, ih]
        split
        · rfl
        · rw [List.filter_cons_of_pos hTest]
      · rw [List.filter_cons_of_neg hTest]
        split
        · exact ih seen
        · rw [List.filter_cons_of_neg hTest, ← ih]
          -- The text of a refused record is not that of any record that is left.
          apply dropRepeated_congr
          intro record hMem
          have hOther : record ≠ first := by
            rintro rfl
            exact hTest (List.mem_filter.1 hMem).2
          rw [List.mem_cons, Value.write_inj]
          constructor
          · exact .inr
          · intro hSeen
            exact hSeen.resolve_left hOther

theorem dropRepeated_of_nodup {seen : List (List Char)} {records : List Value}
    (hNodup : records.Nodup) (hNew : ∀ record ∈ records, record.write ∉ seen) :
    dropRepeated seen records = records := by
  induction records generalizing seen with
  | nil => rfl
  | cons first records ih =>
      obtain ⟨hFirst, hRest⟩ := List.nodup_cons.1 hNodup
      rw [List.forall_mem_cons] at hNew
      rw [dropRepeated, if_neg (mt List.contains_iff_mem.1 hNew.1)]
      have hLater : ∀ record ∈ records, record.write ∉ first.write :: seen := by
        intro record hMem hSeen
        rcases List.mem_cons.1 hSeen with hSame | hOld
        · rw [Value.write_inj.1 hSame] at hMem
          exact hFirst hMem
        · exact hNew.2 record hMem hOld
      rw [ih hRest hLater]

theorem dropRepeated_twice (records : List Value) :
    dropRepeated [] (dropRepeated [] records) = dropRepeated [] records :=
  dropRepeated_of_nodup (nodup_dropRepeated [] records) fun _ _ => List.not_mem_nil

theorem forall_lt_succ {n : Nat} {property : Fin (n + 1) → Prop} {i : Fin n} :
    (∀ j < i.succ, property j) ↔ property 0 ∧ ∀ j < i, property j.succ := by
  rw [Fin.forall_fin_succ]
  simp [Fin.succ_pos]

/-- Whether the record at a position passes a test and equals no earlier one that does,
and its text was not seen before. -/
def IsNew (test : Value → Bool) (seen : List (List Char)) (records : List Value)
    (i : Fin records.length) : Prop :=
  test (records.get i) = true ∧ (records.get i).write ∉ seen ∧
    ∀ j < i, test (records.get j) = true → records.get j ≠ records.get i

theorem isNew_succ {test : Value → Bool} {seen : List (List Char)} {first : Value}
    {records : List Value} {i : Fin records.length} :
    IsNew test seen (first :: records) i.succ ↔
      (test first = true → first ≠ records.get i) ∧ IsNew test seen records i := by
  have hBefore := @forall_lt_succ _ (fun j => test ((first :: records).get j) = true →
    (first :: records).get j ≠ records.get i) i
  constructor
  · rintro ⟨hTest, hSeen, hEarlier⟩
    obtain ⟨hFirst, hLater⟩ := hBefore.1 hEarlier
    exact ⟨hFirst, hTest, hSeen, hLater⟩
  · rintro ⟨hFirst, hTest, hSeen, hLater⟩
    exact ⟨hTest, hSeen, hBefore.2 ⟨hFirst, hLater⟩⟩

theorem keepsExactly_dropRepeated (test : Value → Bool) (seen : List (List Char))
    (records : List Value) :
    KeepsExactly records (IsNew test seen records)
      (dropRepeated seen (records.filter test)) := by
  induction records generalizing seen with
  | nil => exact .nil _
  | cons first records ih =>
      by_cases hTest : test first = true
      · rw [List.filter_cons_of_pos hTest, dropRepeated]
        by_cases hSeen : first.write ∈ seen
        · rw [if_pos (List.contains_iff_mem.2 hSeen)]
          refine (ih seen).drop (fun hNew => hNew.2.1 hSeen) ?_
          intro i
          rw [isNew_succ, and_iff_right_of_imp]
          rintro hNew - rfl
          exact hNew.2.1 hSeen
        · rw [if_neg (mt List.contains_iff_mem.1 hSeen)]
          refine (ih (first.write :: seen)).keep ⟨hTest, hSeen, ?_⟩ ?_
          · intro j hBefore
            exact absurd hBefore (Nat.not_lt_zero _)
          · intro i
            rw [isNew_succ]
            constructor
            · rintro ⟨hFirst, hPasses, hNew, hEarlier⟩
              refine ⟨hPasses, ?_, hEarlier⟩
              rw [List.mem_cons, Value.write_inj]
              rintro (hSame | hOld)
              · exact hFirst hTest hSame.symm
              · exact hNew hOld
            · rintro ⟨hPasses, hNew, hEarlier⟩
              rw [List.mem_cons, Value.write_inj] at hNew
              exact ⟨fun _ hSame => hNew (.inl hSame.symm), hPasses,
                fun hOld => hNew (.inr hOld), hEarlier⟩
      · rw [List.filter_cons_of_neg hTest]
        refine (ih seen).drop (fun hNew => hTest hNew.1) ?_
        intro i
        rw [isNew_succ, and_iff_right_of_imp]
        intro _ hPasses
        exact absurd hPasses hTest

theorem keepsExactly_filter (test : Value → Bool) (records : List Value) :
    KeepsExactly records (fun i => test (records.get i) = true) (records.filter test) := by
  induction records with
  | nil => exact .nil _
  | cons first records ih =>
      by_cases hTest : test first = true
      · rw [List.filter_cons_of_pos hTest]
        exact ih.keep hTest fun _ => Iff.rfl
      · rw [List.filter_cons_of_neg hTest]
        exact ih.drop hTest fun _ => Iff.rfl

/-! ### Matching records -/

variable (selection : Selection) (evaluator : Evaluator)

def Answers (records : List Value) : Prop :=
  ∀ record ∈ records, ∃ held, selection.isMatch evaluator record = .ok held

def selects (record : Value) : Bool :=
  match selection.isMatch evaluator record with
  | .ok held => held
  | .error _ => false

theorem selects_iff {record : Value} :
    selection.selects evaluator record = true ↔
      selection.isMatch evaluator record = .ok true := by
  rw [selects]
  cases selection.isMatch evaluator record with
  | error error => simp
  | ok held => simp

theorem selects_of_isMatch {record : Value} {held : Bool}
    (hMatch : selection.isMatch evaluator record = .ok held) :
    selection.selects evaluator record = held := by
  rw [selects, hMatch]

theorem answers_cons {record : Value} {records : List Value} :
    selection.Answers evaluator (record :: records) ↔
      (∃ held, selection.isMatch evaluator record = .ok held) ∧
        selection.Answers evaluator records :=
  List.forall_mem_cons

theorem matching_eq_ok_iff {records found : List Value} :
    selection.matching evaluator records = .ok found ↔
      selection.Answers evaluator records ∧
        found = records.filter (selection.selects evaluator) := by
  induction records generalizing found with
  | nil => simp [matching, Answers, eq_comm]
  | cons record records ih =>
      rw [matching, answers_cons]
      constructor
      · intro hMatching
        cases hFirst : selection.isMatch evaluator record with
        | error error =>
            rw [hFirst] at hMatching
            cases hMatching
        | ok held =>
            cases hRest : selection.matching evaluator records with
            | error error =>
                rw [hFirst, hRest] at hMatching
                cases hMatching
            | ok later =>
                rw [hFirst, hRest] at hMatching
                cases hMatching
                obtain ⟨hAnswers, rfl⟩ := ih.1 hRest
                rw [List.filter_cons, selection.selects_of_isMatch evaluator hFirst]
                exact ⟨⟨⟨held, rfl⟩, hAnswers⟩, rfl⟩
      · rintro ⟨⟨⟨held, hFirst⟩, hAnswers⟩, rfl⟩
        rw [hFirst, ih.2 ⟨hAnswers, rfl⟩, List.filter_cons,
          selection.selects_of_isMatch evaluator hFirst]

theorem matching_eq_error_iff {records : List Value} {error : EvalError} :
    selection.matching evaluator records = .error error ↔
      ∃ before record after, records = before ++ record :: after ∧
        selection.Answers evaluator before ∧
        selection.isMatch evaluator record = .error error := by
  induction records with
  | nil => simp [matching]
  | cons first records ih =>
      rw [matching]
      constructor
      · intro hMatching
        cases hFirst : selection.isMatch evaluator first with
        | error other =>
            rw [hFirst] at hMatching
            cases hMatching
            exact ⟨[], first, records, rfl, by simp [Answers], hFirst⟩
        | ok held =>
            cases hRest : selection.matching evaluator records with
            | error other =>
                rw [hFirst, hRest] at hMatching
                cases hMatching
                obtain ⟨before, record, after, rfl, hBefore, hRecord⟩ := ih.1 hRest
                refine ⟨first :: before, record, after, rfl, ?_, hRecord⟩
                exact (selection.answers_cons evaluator).2 ⟨⟨held, hFirst⟩, hBefore⟩
            | ok later =>
                rw [hFirst, hRest] at hMatching
                cases hMatching
      · rintro ⟨before, record, after, hSplit, hBefore, hRecord⟩
        cases before with
        | nil =>
            obtain ⟨rfl, rfl⟩ := List.cons.inj hSplit
            rw [hRecord]
        | cons earlier before =>
            obtain ⟨rfl, rfl⟩ := List.cons.inj hSplit
            obtain ⟨⟨held, hFirst⟩, hRest⟩ := (selection.answers_cons evaluator).1 hBefore
            rw [hFirst, ih.2 ⟨before, record, after, rfl, hRest, hRecord⟩]

/-! ### Applying -/

def unrepeated (records : List Value) : List Value :=
  if selection.isDistinct then dropRepeated [] records else records

theorem apply_eq_ok_iff {records found : List Value} :
    selection.apply evaluator records = .ok found ↔
      selection.Answers evaluator records ∧
        found = selection.unrepeated (records.filter (selection.selects evaluator)) := by
  rw [apply]
  constructor
  · intro hApply
    cases hMatching : selection.matching evaluator records with
    | error error =>
        rw [hMatching] at hApply
        cases hApply
    | ok held =>
        rw [hMatching] at hApply
        cases hApply
        obtain ⟨hAnswers, rfl⟩ := (selection.matching_eq_ok_iff evaluator).1 hMatching
        exact ⟨hAnswers, rfl⟩
  · rintro ⟨hAnswers, rfl⟩
    rw [(selection.matching_eq_ok_iff evaluator).2 ⟨hAnswers, rfl⟩]
    rfl

theorem apply_eq_error_iff {records : List Value} {error : EvalError} :
    selection.apply evaluator records = .error error ↔
      ∃ before record after, records = before ++ record :: after ∧
        selection.Answers evaluator before ∧
        selection.isMatch evaluator record = .error error := by
  rw [← matching_eq_error_iff, apply]
  cases selection.matching evaluator records with
  | error other => rfl
  | ok held => simp

theorem keepsExactly_unrepeated (records : List Value) :
    KeepsExactly records
      (fun i => selection.selects evaluator (records.get i) = true ∧
        (selection.isDistinct = true → ∀ j < i,
          selection.selects evaluator (records.get j) = true → records.get j ≠ records.get i))
      (selection.unrepeated (records.filter (selection.selects evaluator))) := by
  rw [unrepeated]
  by_cases hDistinct : selection.isDistinct = true
  · rw [if_pos hDistinct]
    apply (keepsExactly_dropRepeated (selection.selects evaluator) [] records).congr
    intro i
    constructor
    · rintro ⟨hSelects, -, hEarlier⟩
      exact ⟨hSelects, fun _ => hEarlier⟩
    · rintro ⟨hSelects, hEarlier⟩
      exact ⟨hSelects, List.not_mem_nil, hEarlier hDistinct⟩
  · rw [if_neg hDistinct]
    apply (keepsExactly_filter (selection.selects evaluator) records).congr
    intro i
    constructor
    · intro hSelects
      exact ⟨hSelects, fun hTrue => absurd hTrue hDistinct⟩
    · rintro ⟨hSelects, -⟩
      exact hSelects

/-- A selection fails exactly when some record cannot be asked, with the error of the
earliest such record.  Otherwise it keeps the matching records at their positions and, if
it drops repeated ones, those of them that equal no earlier matching record; then no two
of the records found are equal, and no matching record is lost.  Values are equal as they
are held: the zeros of the two signs differ, and a whole number never has the text of a
floating one. -/
theorem apply_is_filter_then_first_of_each (selection : Selection) (evaluator : Evaluator)
    (records : List Value) :
    ((∃ error, selection.apply evaluator records = .error error) ↔
      ∃ record ∈ records, ∃ error, selection.isMatch evaluator record = .error error) ∧
    (∀ error, selection.apply evaluator records = .error error ↔
      ∃ before record after, records = before ++ record :: after ∧
        (∀ earlier ∈ before, ∃ held, selection.isMatch evaluator earlier = .ok held) ∧
        selection.isMatch evaluator record = .error error) ∧
    (∀ found, selection.apply evaluator records = .ok found →
      KeepsExactly records
        (fun i => selection.isMatch evaluator (records.get i) = .ok true ∧
          (selection.isDistinct = true → ∀ j < i,
            selection.isMatch evaluator (records.get j) = .ok true →
              records.get j ≠ records.get i))
        found ∧
      (selection.isDistinct = true → found.Nodup ∧
        ∀ record ∈ records, selection.isMatch evaluator record = .ok true → record ∈ found)) ∧
    ∀ (n : Json.Whole) (x : Json.Finite), (Value.integer n).write ≠ (Value.float x).write := by
  refine ⟨?_, ?_, ?_, Json.integer_write_ne_float⟩
  · constructor
    · rintro ⟨error, hApply⟩
      obtain ⟨before, record, after, rfl, -, hRecord⟩ :=
        (selection.apply_eq_error_iff evaluator).1 hApply
      exact ⟨record, List.mem_append_right before List.mem_cons_self, error, hRecord⟩
    · rintro ⟨record, hMem, error, hRecord⟩
      cases hApply : selection.apply evaluator records with
      | error other => exact ⟨other, rfl⟩
      | ok found =>
          obtain ⟨hAnswers, -⟩ := (selection.apply_eq_ok_iff evaluator).1 hApply
          obtain ⟨held, hHeld⟩ := hAnswers record hMem
          rw [hRecord] at hHeld
          cases hHeld
  · intro error
    exact selection.apply_eq_error_iff evaluator
  · intro found hApply
    obtain ⟨-, rfl⟩ := (selection.apply_eq_ok_iff evaluator).1 hApply
    constructor
    · have hKeeps := selection.keepsExactly_unrepeated evaluator records
      simpa only [selects_iff] using hKeeps
    · intro hDistinct
      rw [unrepeated, if_pos hDistinct]
      refine ⟨nodup_dropRepeated [] _, ?_⟩
      intro record hMem hMatch
      rw [mem_dropRepeated, List.mem_filter, selects_iff]
      exact ⟨⟨hMem, hMatch⟩, List.not_mem_nil⟩

/-- Of `1`, `1.0` and `1` again the first two are kept; a record that is no object makes
the selection fail, whatever follows it. -/
theorem apply_is_filter_then_first_of_each_numbers :
    let selection : Selection := ⟨[.leaf "a" "isnotnull" (.text "")], true⟩
    let evaluator : Evaluator := ⟨"", default⟩
    let whole : Value := .object [("a", .integer ⟨1, by decide, by decide⟩)]
    let floating : Value := .object [("a", .float ⟨1.0, by rfl⟩)]
    let without : Value := .object [("b", .bool true)]
    selection.apply evaluator [whole, without, floating, whole] = .ok [whole, floating] ∧
      [whole, floating].Nodup ∧
      ∃ error, selection.apply evaluator [whole, .bool true, whole] = .error error := by
  intro selection evaluator whole floating without
  have hApply : selection.apply evaluator [whole, without, floating, whole] =
      .ok [whole, floating] := by
    rfl
  have hFails : ∃ error, selection.isMatch evaluator (.bool true) = .error error :=
    ⟨.unresolvedField "a" "a" "a boolean", by rfl⟩
  have hSpec := apply_is_filter_then_first_of_each selection evaluator
  refine ⟨hApply, ((hSpec _).2.2.1 _ hApply).2 rfl |>.1, (hSpec _).1.2 ?_⟩
  exact ⟨.bool true, by simp, hFails⟩

end Selection
end RecordFilter

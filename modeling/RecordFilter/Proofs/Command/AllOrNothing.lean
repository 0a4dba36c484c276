/-
A selection into a file is done as a whole or not at all.

The stages before the output are followed one by one, each with what makes it fail, and
all of them only look at the files.  The output is made empty when nothing can fail any
more, and then holds the selected records, whatever it held before and whether or not the
records or the settings came from it, under its own name or another.
-/
import RecordFilter.Command.Select
import RecordFilter.Proofs.Records.FirstFault
import RecordFilter.Proofs.Records.Lines

namespace RecordFilter

open Json (Value)

namespace Command

/-! ### The first clause that cannot be read -/

def IsClause (text : String) : Prop := ∃ filter, Filter.parse text = .ok filter

theorem addClauses_append (before rest : List String) (selection : Selection)
    (hBefore : ∀ earlier ∈ before, IsClause earlier) :
    ∃ next, addClauses selection (before ++ rest) = addClauses next rest := by
  induction before generalizing selection with
  | nil => exact ⟨selection, rfl⟩
  | cons text before ih =>
      obtain ⟨⟨filter, hFilter⟩, hRest⟩ := List.forall_mem_cons.1 hBefore
      rw [List.cons_append, addClauses, Selection.addText, hFilter]
      cases filter with
      | none => exact ih selection hRest
      | some filter => exact ih (selection.addFilter filter) hRest

theorem addClauses_of_error {text : String} {cause : GrammarError}
    (hText : Filter.parse text = .error cause) (selection : Selection) (after : List String) :
    addClauses selection (text :: after) = .error (.clause text cause) := by
  rw [addClauses, Selection.addText, hText]

theorem exists_cause_of_not_isClause {text : String} (hText : ¬IsClause text) :
    ∃ cause, Filter.parse text = .error cause := by
  cases hParse : Filter.parse text with
  | ok filter => exact absurd ⟨filter, hParse⟩ hText
  | error cause => exact ⟨cause, rfl⟩

theorem selection_of_error {request : SelectRequest} {before after : List String}
    {text : String} {cause : GrammarError} (hClauses : request.clauses = before ++ text :: after)
    (hBefore : ∀ earlier ∈ before, IsClause earlier) (hText : Filter.parse text = .error cause) :
    request.selection = .error (.clause text cause) := by
  obtain ⟨next, hNext⟩ :=
    addClauses_append before (text :: after) ⟨[], request.isDistinct⟩ hBefore
  rw [SelectRequest.selection, hClauses, hNext, addClauses_of_error hText]

theorem exists_clause_of_selection {request : SelectRequest} {error : SelectError}
    (hSelection : request.selection = .error error) :
    ∃ before text after cause, request.clauses = before ++ text :: after ∧
      (∀ earlier ∈ before, IsClause earlier) ∧ Filter.parse text = .error cause ∧
      error = .clause text cause := by
  by_cases hAll : ∀ text ∈ request.clauses, IsClause text
  · obtain ⟨next, hNext⟩ := addClauses_append request.clauses [] ⟨[], request.isDistinct⟩ hAll
    rw [List.append_nil] at hNext
    rw [SelectRequest.selection, hNext] at hSelection
    cases hSelection
  · obtain ⟨before, text, after, hClauses, hBefore, hText⟩ := exists_first_without hAll
    obtain ⟨cause, hCause⟩ := exists_cause_of_not_isClause hText
    rw [selection_of_error hClauses hBefore hCause] at hSelection
    cases hSelection
    exact ⟨before, text, after, cause, hClauses, hBefore, hCause, rfl⟩

theorem isClause_of_selection {request : SelectRequest} {selection : Selection}
    (hSelection : request.selection = .ok selection) :
    ∀ clause ∈ request.clauses, IsClause clause := by
  by_contra hSome
  obtain ⟨before, text, after, hClauses, hBefore, hText⟩ := exists_first_without hSome
  obtain ⟨cause, hCause⟩ := exists_cause_of_not_isClause hText
  rw [selection_of_error hClauses hBefore hCause] at hSelection
  cases hSelection

namespace SelectRequest

variable {request : SelectRequest} {load : Settings.Loader} {workspace : Workspace}

/-! ### The stages -/

/-- The first stage that fails, and its error: the settings, the date format, a clause, the
file with the records, a line that is no record or no text, or a record that cannot be
asked. -/
inductive FailsWith (request : SelectRequest) (load : Settings.Loader) (workspace : Workspace) :
    SelectError → Prop where
  | settings {fault : Settings.Fault}
      (hSettings : load workspace.files.entry workspace.environment request.config =
        .error fault) :
      FailsWith request load workspace (.settings fault)
  | dateFormat {format : String} {fault : Date.PatternFault}
      (hSettings : load workspace.files.entry workspace.environment request.config = .ok format)
      (hPattern : Date.Pattern.ofText format = .error fault) :
      FailsWith request load workspace (.dateFormat (.dateFormat format fault))
  | clause {evaluator : Evaluator} {before after : List String} {text : String}
      {cause : GrammarError} (hEvaluator : request.evaluator load workspace = .ok evaluator)
      (hClauses : request.clauses = before ++ text :: after)
      (hBefore : ∀ earlier ∈ before, IsClause earlier)
      (hText : Filter.parse text = .error cause) :
      FailsWith request load workspace (.clause text cause)
  | unopened {evaluator : Evaluator} {selection : Selection} {path : String}
      (hEvaluator : request.evaluator load workspace = .ok evaluator)
      (hSelection : request.selection = .ok selection) (hInput : request.input = some path)
      (hEntry : (workspace.files.entry path).opens = false) :
      FailsWith request load workspace (.cannotOpen path)
  | directory {evaluator : Evaluator} {selection : Selection} {path : String}
      (hEvaluator : request.evaluator load workspace = .ok evaluator)
      (hSelection : request.selection = .ok selection) (hInput : request.input = some path)
      (hEntry : workspace.files.entry path = .directory) :
      FailsWith request load workspace (.cannotRead path)
  | line {evaluator : Evaluator} {selection : Selection} {name : String} {content : Content}
      {before after : List (List Char)} {line : List Char}
      (hEvaluator : request.evaluator load workspace = .ok evaluator)
      (hSelection : request.selection = .ok selection)
      (hSource : request.source workspace = .ok (name, content))
      (hLines : Records.lines content.text.toList = before ++ line :: after)
      (hBefore : ∀ earlier ∈ before, Records.IsReadable earlier)
      (hLine : ¬Records.IsReadable line) :
      FailsWith request load workspace (.badRecord ⟨name, before.length + 1⟩)
  | broken {evaluator : Evaluator} {selection : Selection} {name : String} {content : Content}
      (hEvaluator : request.evaluator load workspace = .ok evaluator)
      (hSelection : request.selection = .ok selection)
      (hSource : request.source workspace = .ok (name, content))
      (hLines : ∀ line ∈ Records.lines content.text.toList, Records.IsReadable line)
      (hBroken : content.isWhole = false) :
      FailsWith request load workspace (.cannotRead name)
  | record {evaluator : Evaluator} {selection : Selection} {name : String} {content : Content}
      {before after : List Value} {record : Value} {cause : EvalError}
      (hEvaluator : request.evaluator load workspace = .ok evaluator)
      (hSelection : request.selection = .ok selection)
      (hSource : request.source workspace = .ok (name, content))
      (hWhole : content.isWhole = true)
      (hRecords : Records.read name content.text = .ok (before ++ record :: after))
      (hBefore : ∀ earlier ∈ before, ∃ held, selection.isMatch evaluator earlier = .ok held)
      (hRecord : selection.isMatch evaluator record = .error cause) :
      FailsWith request load workspace (.evaluation cause)

/-- What is selected when no stage fails. -/
inductive Keeps (request : SelectRequest) (load : Settings.Loader) (workspace : Workspace) :
    List Value → Prop where
  | intro {evaluator : Evaluator} {selection : Selection} {name : String} {content : Content}
      {records found : List Value}
      (hEvaluator : request.evaluator load workspace = .ok evaluator)
      (hClauses : ∀ clause ∈ request.clauses, IsClause clause)
      (hSelection : request.selection = .ok selection)
      (hSource : request.source workspace = .ok (name, content))
      (hWhole : content.isWhole = true)
      (hRecords : Records.read name content.text = .ok records)
      (hAnswers : ∀ record ∈ records, ∃ held, selection.isMatch evaluator record = .ok held)
      (hFound : selection.apply evaluator records = .ok found) :
      Keeps request load workspace found

theorem evaluator_eq_error {error : SelectError}
    (hEvaluator : request.evaluator load workspace = .error error) :
    request.FailsWith load workspace error := by
  unfold evaluator at hEvaluator
  split at hEvaluator
  · rename_i fault hSettings
    cases hEvaluator
    exact .settings hSettings
  · rename_i format hSettings
    unfold Evaluator.ofFormat at hEvaluator
    cases hPattern : Date.Pattern.ofText format with
    | ok pattern =>
        rw [hPattern] at hEvaluator
        cases hEvaluator
    | error fault =>
        rw [hPattern] at hEvaluator
        cases hEvaluator
        exact .dateFormat hSettings hPattern

theorem source_eq_error {evaluator : Evaluator} {selection : Selection} {error : SelectError}
    (hEvaluator : request.evaluator load workspace = .ok evaluator)
    (hSelection : request.selection = .ok selection)
    (hSource : request.source workspace = .error error) :
    request.FailsWith load workspace error := by
  unfold source at hSource
  split at hSource
  · cases hSource
  · rename_i path hInput
    split at hSource
    · cases hSource
    · cases hSource
    · rename_i hEntry
      cases hSource
      exact .directory hEvaluator hSelection hInput hEntry
    · rename_i isFile hEntry
      cases hSource
      exact .unopened hEvaluator hSelection hInput (congrArg FileEntry.opens hEntry)
    · rename_i hEntry
      cases hSource
      exact .unopened hEvaluator hSelection hInput (congrArg FileEntry.opens hEntry)

theorem records_eq_error {evaluator : Evaluator} {selection : Selection} {error : SelectError}
    (hEvaluator : request.evaluator load workspace = .ok evaluator)
    (hSelection : request.selection = .ok selection)
    (hRecords : request.records workspace = .error error) :
    request.FailsWith load workspace error := by
  unfold records at hRecords
  split at hRecords
  · rename_i hSource
    cases hRecords
    exact source_eq_error hEvaluator hSelection hSource
  · rename_i name content hSource
    split at hRecords
    · rename_i fault hRead
      cases hRecords
      obtain ⟨before, line, after, hLines, hBefore, hLine, rfl⟩ :=
        Records.exists_line_of_read hRead
      exact .line hEvaluator hSelection hSource hLines hBefore hLine
    · rename_i read hRead
      split at hRecords
      · cases hRecords
      · rename_i hBroken
        cases hRecords
        exact .broken hEvaluator hSelection hSource (Records.isReadable_of_read hRead)
          (Bool.eq_false_iff.2 hBroken)

theorem source_of_not_opens {path : String} (hInput : request.input = some path)
    (hEntry : (workspace.files.entry path).opens = false) :
    request.source workspace = .error (.cannotOpen path) := by
  cases hShown : workspace.files.entry path with
  | locked isFile => simp only [source, hInput, hShown]
  | missing => simp only [source, hInput, hShown]
  | file _ | broken _ _ | directory =>
      rw [hShown] at hEntry
      cases hEntry

theorem exists_source_of_records {held : List Value}
    (hRecords : request.records workspace = .ok held) :
    ∃ name content, request.source workspace = .ok (name, content) ∧ content.isWhole = true ∧
      Records.read name content.text = .ok held := by
  unfold records at hRecords
  split at hRecords
  · cases hRecords
  · rename_i name content hSource
    split at hRecords
    · cases hRecords
    · rename_i read hRead
      split at hRecords
      · rename_i hWhole
        cases hRecords
        exact ⟨name, content, hSource, hWhole, hRead⟩
      · cases hRecords

theorem selected_of_failsWith {error : SelectError}
    (hFails : request.FailsWith load workspace error) :
    request.selected load workspace = .error error := by
  cases hFails with
  | settings hSettings => simp only [selected, evaluator, hSettings]
  | dateFormat hSettings hPattern =>
      simp only [selected, evaluator, hSettings, Evaluator.ofFormat, hPattern]
  | clause hEvaluator hClauses hBefore hText =>
      simp only [selected, hEvaluator, selection_of_error hClauses hBefore hText]
  | unopened hEvaluator hSelection hInput hEntry =>
      simp only [selected, hEvaluator, hSelection, records, source_of_not_opens hInput hEntry]
  | directory hEvaluator hSelection hInput hEntry =>
      simp only [selected, hEvaluator, hSelection, records, source, hInput, hEntry]
  | line hEvaluator hSelection hSource hLines hBefore hLine =>
      simp only [selected, hEvaluator, hSelection, records, hSource,
        Records.read_of_not_readable hLines hBefore hLine]
  | broken hEvaluator hSelection hSource hLines hBroken =>
      obtain ⟨read, hRead⟩ := Records.exists_of_isReadable hLines
      simp only [selected, hEvaluator, hSelection, records, hSource, hRead, hBroken,
        Bool.false_eq_true, if_false]
  | @record evaluator selection _ _ before after record cause hEvaluator hSelection hSource
      hWhole hRecords hBefore hRecord =>
      have hApply : selection.apply evaluator (before ++ record :: after) = .error cause :=
        (selection.apply_eq_error_iff evaluator).2 ⟨_, _, _, rfl, hBefore, hRecord⟩
      simp only [selected, hEvaluator, hSelection, records, hSource, hRecords, hWhole, if_true,
        hApply]

theorem selected_of_keeps {found : List Value} (hKeeps : request.Keeps load workspace found) :
    request.selected load workspace = .ok found := by
  obtain ⟨hEvaluator, -, hSelection, hSource, hWhole, hRecords, -, hFound⟩ := hKeeps
  simp only [selected, hEvaluator, hSelection, records, hSource, hRecords, hWhole, if_true,
    hFound]

theorem failsWith_or_keeps (request : SelectRequest) (load : Settings.Loader)
    (workspace : Workspace) :
    (∃ error, request.FailsWith load workspace error) ∨ ∃ found, request.Keeps load workspace found := by
  -- the stages in their order, each with those before it passed
  cases hEvaluator : request.evaluator load workspace with
  | error error => exact .inl ⟨error, evaluator_eq_error hEvaluator⟩
  | ok evaluator =>
      cases hSelection : request.selection with
      | error error =>
          obtain ⟨before, text, after, cause, hClauses, hBefore, hText, -⟩ :=
            exists_clause_of_selection hSelection
          exact .inl ⟨_, .clause hEvaluator hClauses hBefore hText⟩
      | ok selection =>
          cases hRecords : request.records workspace with
          | error error => exact .inl ⟨error, records_eq_error hEvaluator hSelection hRecords⟩
          | ok records =>
              obtain ⟨name, content, hSource, hWhole, hRead⟩ := exists_source_of_records hRecords
              cases hFound : selection.apply evaluator records with
              | error cause =>
                  obtain ⟨before, record, after, rfl, hBefore, hRecord⟩ :=
                    (selection.apply_eq_error_iff evaluator).1 hFound
                  exact .inl ⟨_,
                    .record hEvaluator hSelection hSource hWhole hRead hBefore hRecord⟩
              | ok found =>
                  have hAnswers := ((selection.apply_eq_ok_iff evaluator).1 hFound).1
                  have hClauses := isClause_of_selection hSelection
                  exact .inr ⟨found,
                    .intro hEvaluator hClauses hSelection hSource hWhole hRead hAnswers hFound⟩

/-! ### The output -/

theorem run_of_failsWith {error : SelectError}
    (hFails : request.FailsWith load workspace error) :
    request.run load workspace = (.error error, workspace) := by
  rw [run, selected_of_failsWith hFails]

section Output

variable {path : String} {found : List Value} (hOutput : request.output = some path)
  (hKeeps : request.Keeps load workspace found)

include hOutput hKeeps

theorem run_of_canWrite (hWrite : workspace.files.canWrite path = true) :
    request.run load workspace =
      (.ok found.length,
        { workspace with files := workspace.files.write path (Records.write found) }) := by
  obtain ⟨place, hPlace⟩ := FileStore.exists_place_of_canWrite hWrite
  simp only [run, selected_of_keeps hKeeps, hOutput, Workspace.create, if_pos hWrite,
    Workspace.append, FileStore.append_write hPlace, String.empty_append]

theorem run_of_not_canWrite (hWrite : workspace.files.canWrite path = false) :
    request.run load workspace = (.error (.cannotCreate path), workspace) := by
  have hNot : ¬workspace.files.canWrite path = true := by
    rw [hWrite]
    exact Bool.false_ne_true
  simp only [run, selected_of_keeps hKeeps, hOutput, Workspace.create, if_neg hNot]

end Output

/-- What a selection into a file leaves: the texts of the selected records at the place of
that file, and everything else as it was. -/
structure SelectedInto (place : Place) (found : List Value) (before after : Workspace) :
    Prop where
  content : after.files.holding place = .file (.ofText (Records.write found))
  others : ∀ other, other ≠ place → after.files.holding other = before.files.holding other
  places : after.files.place? = before.files.place?
  readable : after.files.readable = before.files.readable
  writable : after.files.writable = before.files.writable
  environment : after.environment = before.environment
  input : after.input = before.input
  printed : after.printed = before.printed

theorem selectedInto_put (workspace : Workspace) (place : Place) (found : List Value) :
    SelectedInto place found workspace
      { workspace with files := workspace.files.put place (.ofText (Records.write found)) } where
  content := FileStore.holding_put_self _ place _
  others _ hOther := FileStore.holding_put_of_ne _ _ hOther
  places := rfl
  readable := rfl
  writable := rfl
  environment := rfl
  input := rfl
  printed := rfl

theorem SelectedInto.heldAt {path : String} {place : Place} {found : List Value}
    {after : Workspace} (hPlace : workspace.files.place? path = some place)
    (hInto : SelectedInto place found workspace after) :
    after.files.heldAt path = .file (.ofText (Records.write found)) := by
  have hAfter : after.files.place? path = some place := by rw [hInto.places, hPlace]
  rw [FileStore.heldAt, hAfter]
  exact hInto.content

section Outcome

variable {path : String} {after : Workspace} (hOutput : request.output = some path)

include hOutput

theorem exists_of_run_eq_ok {count : Nat}
    (hRun : request.run load workspace = (.ok count, after)) :
    ∃ place found, workspace.files.place? path = some place ∧
      request.Keeps load workspace found ∧ found.length = count ∧
      SelectedInto place found workspace after := by
  rcases failsWith_or_keeps request load workspace with ⟨error, hFails⟩ | ⟨found, hKeeps⟩
  · rw [run_of_failsWith hFails] at hRun
    cases hRun
  · cases hWrite : workspace.files.canWrite path with
    | false =>
        rw [run_of_not_canWrite hOutput hKeeps hWrite] at hRun
        cases hRun
    | true =>
        obtain ⟨place, hPlace⟩ := FileStore.exists_place_of_canWrite hWrite
        rw [run_of_canWrite hOutput hKeeps hWrite, FileStore.write_eq_put hPlace] at hRun
        cases hRun
        exact ⟨place, found, hPlace, hKeeps, rfl, selectedInto_put workspace place found⟩

theorem cause_of_run_eq_error {error : SelectError}
    (hRun : request.run load workspace = (.error error, after)) :
    after = workspace ∧ (request.FailsWith load workspace error ∨
      (∃ found, request.Keeps load workspace found) ∧ workspace.files.canWrite path = false ∧
        error = .cannotCreate path) := by
  rcases failsWith_or_keeps request load workspace with ⟨cause, hFails⟩ | ⟨found, hKeeps⟩
  · rw [run_of_failsWith hFails] at hRun
    cases hRun
    exact ⟨rfl, .inl hFails⟩
  · cases hWrite : workspace.files.canWrite path with
    | false =>
        rw [run_of_not_canWrite hOutput hKeeps hWrite] at hRun
        cases hRun
        exact ⟨rfl, .inr ⟨⟨found, hKeeps⟩, rfl, rfl⟩⟩
    | true =>
        rw [run_of_canWrite hOutput hKeeps hWrite] at hRun
        cases hRun

end Outcome

/-! ### What the selected records follow from -/

/-- Whatever is looked at before the output is the same in two workspaces. -/
structure Agree (first second : Workspace) : Prop where
  entry : ∀ path, first.files.entry path = second.files.entry path
  environment : first.environment = second.environment
  input : first.input = second.input

/-- Neither the output nor what was printed has a part in what is selected. -/
theorem selected_of_agree (request : SelectRequest) (load : Settings.Loader)
    {other : Workspace} (hAgree : Agree workspace other) (output : Option String) :
    ({ request with output } : SelectRequest).selected load other =
      request.selected load workspace := by
  have hFiles : other.files.entry = workspace.files.entry :=
    funext fun path => (hAgree.entry path).symm
  have hEvaluator : ({ request with output } : SelectRequest).evaluator load other =
      request.evaluator load workspace := by
    simp only [evaluator, hFiles, hAgree.environment]
  have hSource : ({ request with output } : SelectRequest).source other =
      request.source workspace := by
    simp only [source, hAgree.entry, hAgree.input]
  have hRecords : ({ request with output } : SelectRequest).records other =
      request.records workspace := by
    rw [records, hSource, records]
  rw [selected, hEvaluator, hRecords, selected]
  rfl

theorem keeps_unique {other : Workspace} (hAgree : Agree workspace other)
    {output : Option String} {found held : List Value}
    (hFound : request.Keeps load workspace found)
    (hHeld : ({ request with output } : SelectRequest).Keeps load other held) :
    held = found := by
  have hSelected := request.selected_of_agree load hAgree output
  rw [selected_of_keeps hFound, selected_of_keeps hHeld] at hSelected
  cases hSelected
  rfl

/-! ### All or nothing -/

/-- A selection into a file whose settings, date format, clauses, lines or records are at
fault answers with the first fault and changes nothing, the output included; so does one
whose output cannot be made.  Every other selection answers with the number of lines that the
output then holds, the texts of the selected records, and changes nothing else.  What is
written follows from what could be read before: any other output gets the same, also where
one of them is the file that the records or the settings are read from.

This holds for every way to load settings and wherever paths lead. -/
theorem run_all_or_nothing {request : SelectRequest} {path : String}
    (hOutput : request.output = some path) (load : Settings.Loader) (workspace : Workspace) :
    (∀ error, request.FailsWith load workspace error →
      request.run load workspace = (.error error, workspace)) ∧
    (∀ error after, request.run load workspace = (.error error, after) →
      after = workspace ∧ (request.FailsWith load workspace error ∨
        (∃ found, request.Keeps load workspace found) ∧
          workspace.files.canWrite path = false ∧ error = .cannotCreate path)) ∧
    (∀ found, request.Keeps load workspace found → workspace.files.canWrite path = true →
      ∃ after, request.run load workspace = (.ok found.length, after)) ∧
    (∀ count after, request.run load workspace = (.ok count, after) →
      ∃ place found, workspace.files.place? path = some place ∧
        request.Keeps load workspace found ∧ SelectedInto place found workspace after ∧
        Records.lines (Records.write found).toList = found.map Value.write ∧
        (Records.write found).toList.count '\n' = count ∧
        (Records.lines (Records.write found).toList).length = count) ∧
    ∀ other elsewhere count again after afterwards, Agree workspace elsewhere →
      request.run load workspace = (.ok count, after) →
      ({ request with output := some other } : SelectRequest).run load elsewhere =
        (.ok again, afterwards) →
      again = count ∧ afterwards.files.heldAt other = after.files.heldAt path := by
  refine ⟨fun _ => run_of_failsWith, ?_, ?_, ?_, ?_⟩
  · intro error after hRun
    exact cause_of_run_eq_error hOutput hRun
  · intro found hKeeps hWrite
    exact ⟨_, run_of_canWrite hOutput hKeeps hWrite⟩
  · intro count after hRun
    obtain ⟨place, found, hPlace, hKeeps, hCount, hInto⟩ := exists_of_run_eq_ok hOutput hRun
    have hChars : (Records.write found).toList = Records.writeChars found :=
      String.toList_ofList
    have hLines : Records.lines (Records.write found).toList = found.map Value.write := by
      rw [hChars, Records.lines_writeChars]
    refine ⟨place, found, hPlace, hKeeps, hInto, hLines, ?_, ?_⟩
    · rw [hChars, Records.count_writeChars, hCount]
    · rw [hLines, List.length_map, hCount]
  · intro other elsewhere count again after afterwards hAgree hRun hAgain
    obtain ⟨place, found, hPlace, hKeeps, hCount, hInto⟩ := exists_of_run_eq_ok hOutput hRun
    obtain ⟨aside, held, hAside, hHeld, hLength, hElsewhere⟩ := exists_of_run_eq_ok rfl hAgain
    obtain rfl : held = found := keeps_unique hAgree hKeeps hHeld
    refine ⟨hLength.symm.trans hCount, ?_⟩
    rw [SelectedInto.heldAt hAside hElsewhere, SelectedInto.heldAt hPlace hInto]

/-- The records of a file selected into that file through a link and into a new file, and a
last record that cannot be asked. -/
theorem run_all_or_nothing_same_file :
    let first := "\x7b\"a\":1,\"b\":\x7b\"c\":0\x7d\x7d\n"
    let last := "\x7b\"a\":2,\"b\":3\x7d\n"
    let listed := FileStore.ofFiles
      [("in.jsonl", first ++ "\n" ++ last), ("sub/settings.toml", "date_format = '[year]'")]
    let files : FileStore :=
      { listed with place? := fun path =>
          listed.place? (if path = "link" then "in.jsonl" else path) }
    let workspace : Workspace := { files }
    let load := Settings.dateFormat
    let request : SelectRequest :=
      { clauses := ["a~gt~1"], input := some "in.jsonl", output := some "link",
        config := some "sub/settings.toml" }
    let aside : SelectRequest := { request with output := some "sub/../out" }
    let faulty : SelectRequest := { request with clauses := ["b.c~eq~0"] }
    let after := (request.run load workspace).2
    let afterwards := (aside.run load workspace).2
    let error : SelectError := .evaluation (.unresolvedField "b.c" "c" "a number")
    request.run load workspace = (.ok 1, after) ∧ aside.run load workspace = (.ok 1, afterwards) ∧
      after.files.heldAt "in.jsonl" = .file last ∧
      afterwards.files.heldAt "in.jsonl" = workspace.files.heldAt "in.jsonl" ∧
      afterwards.files.heldAt "sub/../out" = after.files.heldAt "link" ∧
      faulty.FailsWith load workspace error ∧
      faulty.run load workspace = (.error error, workspace) := by
  intro first last listed files workspace load request aside faulty after afterwards error
  have hRun : request.run load workspace = (.ok 1, after) :=
    Prod.fst_eq_iff.1 (by decide +kernel)
  have hAside : aside.run load workspace = (.ok 1, afterwards) :=
    Prod.fst_eq_iff.1 (by decide +kernel)
  have hLink : after.files.heldAt "in.jsonl" = .file last := by decide +kernel
  have hKept : afterwards.files.heldAt "in.jsonl" = workspace.files.heldAt "in.jsonl" := by
    decide +kernel
  have hFault : faulty.run load workspace = (.error error, (faulty.run load workspace).2) :=
    Prod.fst_eq_iff.1 (by decide +kernel)
  have hAgree : Agree workspace workspace := ⟨fun _ => rfl, rfl, rfl⟩
  have hOutput : request.output = some "link" := rfl
  have hWhole := run_all_or_nothing hOutput load workspace
  have hSame :=
    hWhole.2.2.2.2 "sub/../out" workspace 1 1 after afterwards hAgree hRun hAside
  have hSameOutput : faulty.output = some "link" := rfl
  have hFaulty := run_all_or_nothing hSameOutput load workspace
  have hOther : error ≠ .cannotCreate "link" := SelectError.noConfusion
  have hFails : faulty.FailsWith load workspace error :=
    (hFaulty.2.1 error _ hFault).2.resolve_right fun hCreate => hOther hCreate.2.2
  exact ⟨hRun, hAside, hLink, hKept, hSame.2, hFails, hFaulty.1 error hFails⟩

end SelectRequest
end Command
end RecordFilter

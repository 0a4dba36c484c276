/-
Entries that a filter does not read.

A filter looks at a record only through the values of its fields (`test_of_resolve`).  So an
entry of a nested object may be set, replaced or removed if no field leads to it, through it
or to an object around it; and an entry that is null may be removed even if a field leads
to it or through it, because null and a missing key both mean that there is no value.
Answers and errors stay the same.
-/
import RecordFilter.Proofs.Eval.Faults

namespace RecordFilter

/-! ### Changed entries -/

namespace Json

def eraseEntry (key : String) (entries : List (String × Value)) : List (String × Value) :=
  entries.filter fun entry => entry.1 ≠ key

theorem lookup?_eraseEntry (key sought : String) (entries : List (String × Value)) :
    lookup? sought (eraseEntry key entries) =
      if sought = key then none else lookup? sought entries := by
  induction entries with
  | nil => simp [eraseEntry, lookup?]
  | cons entry entries ih =>
      obtain ⟨other, held⟩ := entry
      rw [eraseEntry] at ih
      by_cases hKey : other = key
      · subst hKey
        rw [eraseEntry, List.filter_cons_of_neg (by simp), ih, lookup?]
        by_cases hSought : sought = other
        · rw [if_pos hSought, if_pos hSought]
        · rw [if_neg hSought, if_neg hSought, if_neg hSought]
      · rw [eraseEntry, List.filter_cons_of_pos (by simpa using hKey), lookup?, ih, lookup?]
        by_cases hSought : sought = other
        · subst hSought
          rw [if_pos rfl, if_neg hKey, if_pos rfl]
        · rw [if_neg hSought, if_neg hSought]

def putEntry (key : String) (entry : Option Value) (entries : List (String × Value)) :
    List (String × Value) :=
  match entry with
  | some value => insertEntry key value entries
  | none => eraseEntry key entries

theorem lookup?_putEntry (key sought : String) (entry : Option Value)
    (entries : List (String × Value)) :
    lookup? sought (putEntry key entry entries) =
      if sought = key then entry else lookup? sought entries := by
  cases entry with
  | some value => exact lookup?_insertEntry key sought value entries
  | none => exact lookup?_eraseEntry key sought entries

/-- A record in which the object at a path has a value under a key, or none.  There is no
such record if the path does not lead through objects to an object. -/
def Value.withEntry? (entry : Option Value) (key : String) : List String → Value → Option Value
  | [], .object entries => some (.object (putEntry key entry entries))
  | segment :: more, .object entries =>
      match lookup? segment entries with
      | none => none
      | some inner =>
          (inner.withEntry? entry key more).map fun changed =>
            .object (putEntry segment (some changed) entries)
  | _, _ => none

end Json

open Json (Value)

namespace Eval

variable {entry : Option Value} {key : String} {before : List String} {record changed : Value}

theorem Leads.rest {after : List String} {middle last : Value}
    (hBefore : Leads before record middle) (hWhole : Leads (before ++ after) record last) :
    Leads after middle last := by
  induction hBefore with
  | here value => exact hWhole
  | field hNext hMore ih =>
      cases hWhole with
      | field hSame hRest =>
          rw [hNext] at hSame
          cases hSame
          exact ih hRest

theorem exists_withEntry? {entries : List (String × Value)} (entry : Option Value)
    (key : String) (hPath : Leads before record (.object entries)) :
    ∃ changed, record.withEntry? entry key before = some changed := by
  induction before generalizing record with
  | nil =>
      cases hPath
      exact ⟨_, rfl⟩
  | cons segment more ih =>
      cases hPath with
      | field hNext hMore =>
          obtain ⟨inner, hInner⟩ := ih hMore
          rw [Value.withEntry?, hNext]
          simp only [hInner]
          exact ⟨_, rfl⟩

/-- What an entry of a nested object is changed into: the entries of its own object, or those
of the object around, one of which holds the changed object. -/
theorem withEntry?_cases (hChanged : record.withEntry? entry key before = some changed) :
    ∃ entries, record = .object entries ∧
      ((before = [] ∧ changed = .object (Json.putEntry key entry entries)) ∨
        ∃ segment more inner other, before = segment :: more ∧
          Json.lookup? segment entries = some inner ∧
          inner.withEntry? entry key more = some other ∧
          changed = .object (Json.putEntry segment (some other) entries)) := by
  cases record with
  | null | bool _ | integer _ | float _ | text _ | array _ =>
      rw [Value.withEntry?] at hChanged
      · cases hChanged
      · rintro _ _ ⟨⟩
      · rintro _ _ _ _ ⟨⟩
  | object entries =>
      refine ⟨entries, rfl, ?_⟩
      cases before with
      | nil =>
          cases hChanged
          exact .inl ⟨rfl, rfl⟩
      | cons segment more =>
          rw [Value.withEntry?] at hChanged
          cases hNext : Json.lookup? segment entries with
          | none =>
              rw [hNext] at hChanged
              cases hChanged
          | some inner =>
              rw [hNext] at hChanged
              obtain ⟨other, hInner, rfl⟩ := Option.map_eq_some_iff.mp hChanged
              exact .inr ⟨segment, more, inner, other, rfl, hNext, hInner, rfl⟩

/-- The changed entry is there with its new value, or it is not there any more. -/
theorem leads_withEntry?_iff (hChanged : record.withEntry? entry key before = some changed)
    (value : Value) : Leads (before ++ [key]) changed value ↔ entry = some value := by
  induction before generalizing record changed with
  | nil =>
      obtain ⟨entries, rfl, ⟨-, rfl⟩ | ⟨_, _, _, _, hBefore, -⟩⟩ := withEntry?_cases hChanged
      · constructor
        · intro hLeads
          cases hLeads with
          | field hNext hMore =>
              rw [Json.lookup?_putEntry, if_pos rfl] at hNext
              cases hMore
              exact hNext
        · rintro rfl
          refine .field ?_ (.here value)
          rw [Json.lookup?_putEntry, if_pos rfl]
      · cases hBefore
  | cons segment more ih =>
      obtain ⟨entries, rfl, ⟨hBefore, -⟩ | ⟨_, _, inner, other, hBefore, hNext, hInner, rfl⟩⟩ :=
        withEntry?_cases hChanged
      · cases hBefore
      · cases hBefore
        rw [← ih hInner, List.cons_append]
        constructor
        · intro hLeads
          cases hLeads with
          | field hSame hMore =>
              rw [Json.lookup?_putEntry, if_pos rfl] at hSame
              cases hSame
              exact hMore
        · intro hLeads
          refine .field ?_ hLeads
          rw [Json.lookup?_putEntry, if_pos rfl]

/-- A path that does not end at the object of a changed entry or in front of it leads where
it led before, if this holds of paths that go through the entry. -/
theorem follow_withEntry? (path : String) {fields : List String}
    (hChanged : record.withEntry? entry key before = some changed)
    (hAhead : ¬ fields <+: before)
    (hThrough : ∀ rest entries, fields = before ++ key :: rest →
      Leads before record (.object entries) →
        follow path (key :: rest) (.object (Json.putEntry key entry entries)) =
          follow path (key :: rest) (.object entries)) :
    follow path fields changed = follow path fields record := by
  -- The path to the entry and the other path part at some object; up to there both runs go
  -- through the same keys, and behind it through the same values.
  induction before generalizing record changed fields with
  | nil =>
      obtain ⟨entries, rfl, ⟨-, rfl⟩ | ⟨_, _, _, _, hBefore, -⟩⟩ := withEntry?_cases hChanged
      · cases fields with
        | nil => exact absurd List.nil_prefix hAhead
        | cons field rest =>
            by_cases hKey : field = key
            · rw [hKey]
              exact hThrough rest entries (by rw [hKey, List.nil_append]) (.here _)
            · simp only [follow, Json.lookup?_putEntry, if_neg hKey]
      · cases hBefore
  | cons segment more ih =>
      obtain ⟨entries, rfl, ⟨hBefore, -⟩ | ⟨_, _, inner, other, hBefore, hNext, hInner, rfl⟩⟩ :=
        withEntry?_cases hChanged
      · cases hBefore
      · cases hBefore
        cases fields with
        | nil => exact absurd List.nil_prefix hAhead
        | cons field rest =>
            by_cases hSegment : field = segment
            · subst hSegment
              simp only [follow, Json.lookup?_putEntry, if_pos, hNext]
              apply ih hInner
              · intro hPrefix
                exact hAhead (List.cons_prefix_cons.mpr ⟨rfl, hPrefix⟩)
              · intro behind held hRest hLeads
                exact hThrough behind held (by rw [hRest, List.cons_append]) (.field hNext hLeads)
            · simp only [follow, Json.lookup?_putEntry, if_neg hSegment]

/-- A path that neither leads to the object of the entry, to the entry or through it has the
value that it had before. -/
theorem resolve_withEntry?_of_apart {path : String}
    (hChanged : record.withEntry? entry key before = some changed)
    (hAhead : ¬ segments path <+: before ++ [key])
    (hBehind : ¬ before ++ [key] <+: segments path) :
    resolve changed path = resolve record path := by
  apply follow_withEntry? path hChanged
  · intro hPrefix
    exact hAhead (hPrefix.trans (List.prefix_append before [key]))
  · intro rest entries hFields
    refine absurd ⟨rest, ?_⟩ hBehind
    rw [hFields, List.append_assoc]
    rfl

/-- An entry that is null may be removed, unless a path leads to an object around it. -/
theorem resolve_withoutNull {path : String}
    (hChanged : record.withEntry? none key before = some changed)
    (hNull : Leads (before ++ [key]) record .null)
    (hAround : segments path <+: before ++ [key] → segments path = before ++ [key]) :
    resolve changed path = resolve record path := by
  apply follow_withEntry? path hChanged
  · intro hPrefix
    have hWhole := hAround (hPrefix.trans (List.prefix_append before [key]))
    have hLength := hPrefix.length_le
    rw [hWhole, List.length_append, List.length_singleton] at hLength
    omega
  · intro rest entries _ hLeads
    have hEntry : Json.lookup? key entries = some .null := by
      cases hLeads.rest hNull with
      | field hNext hMore =>
          cases hMore
          exact hNext
    simp only [follow, Json.lookup?_putEntry, if_pos, hEntry, follow_null]

end Eval

namespace Evaluator

open RecordFilter.Filter (comparisons comparisonsIn)

variable (evaluator : Evaluator) {record other : Value}

mutual

theorem test_of_resolve : ∀ {filter : Filter},
    (∀ comparison ∈ filter.comparisons,
      Eval.resolve other comparison.field = Eval.resolve record comparison.field) →
    evaluator.test other filter = evaluator.test record filter
  | .leaf field operator value, hSame => by
      rw [comparisons, List.forall_mem_singleton] at hSame
      rw [test, test, testLeaf, testLeaf, hSame]
  | .group .and children, hSame => by
      rw [test, test]
      exact testAll_of_resolve hSame
  | .group .or children, hSame => by
      rw [test, test]
      exact testAny_of_resolve hSame

theorem testAll_of_resolve : ∀ {children : List Filter},
    (∀ comparison ∈ comparisonsIn children,
      Eval.resolve other comparison.field = Eval.resolve record comparison.field) →
    evaluator.testAll other children = evaluator.testAll record children
  | [], _ => rfl
  | child :: children, hSame => by
      rw [comparisonsIn, List.forall_mem_append] at hSame
      rw [testAll, testAll, test_of_resolve hSame.1, testAll_of_resolve hSame.2]

theorem testAny_of_resolve : ∀ {children : List Filter},
    (∀ comparison ∈ comparisonsIn children,
      Eval.resolve other comparison.field = Eval.resolve record comparison.field) →
    evaluator.testAny other children = evaluator.testAny record children
  | [], _ => rfl
  | child :: children, hSame => by
      rw [comparisonsIn, List.forall_mem_append] at hSame
      rw [testAny, testAny, test_of_resolve hSame.1, testAny_of_resolve hSame.2]

end

/-- Each entry of a nested object of a record can be set, replaced or removed.  A filter has
the same answer or the same error afterwards if no field of it is a prefix of the path of
the entry and that path is no prefix of a field.  If a null was removed, this holds as soon
as no field is a proper prefix of the path. -/
theorem test_of_unread_entry (evaluator : Evaluator) {record : Value} {before : List String}
    {entries : List (String × Value)} (hPath : Eval.Leads before record (.object entries))
    (key : String) (entry : Option Value) :
    ∃ changed, record.withEntry? entry key before = some changed ∧
      (∀ value, Eval.Leads (before ++ [key]) changed value ↔ entry = some value) ∧
      (∀ filter : Filter,
        (∀ comparison ∈ filter.comparisons,
          ¬ Eval.segments comparison.field <+: before ++ [key] ∧
            ¬ before ++ [key] <+: Eval.segments comparison.field) →
        evaluator.test changed filter = evaluator.test record filter) ∧
      (entry = none → Eval.Leads (before ++ [key]) record .null → ∀ filter : Filter,
        (∀ comparison ∈ filter.comparisons,
          ¬ (Eval.segments comparison.field <+: before ++ [key] ∧
            Eval.segments comparison.field ≠ before ++ [key])) →
        evaluator.test changed filter = evaluator.test record filter) := by
  obtain ⟨changed, hChanged⟩ := Eval.exists_withEntry? entry key hPath
  refine ⟨changed, hChanged, Eval.leads_withEntry?_iff hChanged, ?_, ?_⟩
  · intro filter hApart
    apply test_of_resolve
    intro comparison hMember
    obtain ⟨hAhead, hBehind⟩ := hApart comparison hMember
    exact Eval.resolve_withEntry?_of_apart hChanged hAhead hBehind
  · rintro rfl hNull filter hAround
    apply test_of_resolve
    intro comparison hMember
    apply Eval.resolve_withoutNull hChanged hNull
    intro hPrefix
    by_contra hProper
    exact hAround comparison hMember ⟨hPrefix, hProper⟩

/-- A null is removed from a nested object.  One filter leads to the entry and through it, the
other one passes by and fails behind a number. -/
theorem test_of_unread_entry_null :
    let evaluator : Evaluator := ⟨"", default⟩
    let inner : List (String × Value) :=
      [("name", .null), ("n", .integer ⟨5, by decide, by decide⟩)]
    let record : Value := .object [("id", .text "x"), ("owner", .object inner)]
    let reading : Filter := .all [.leaf "owner.name" "isnull" (.text ""),
      .leaf "owner.name.first" "neq" (.text "a")]
    let passing : Filter := .any [.leaf "id" "eq" (.text "y"),
      .leaf "owner.n.x" "eq" (.text "5")]
    Eval.Leads ["owner"] record (.object inner) ∧
      Eval.Leads ["owner", "name"] record .null ∧
      ∃ changed, record.withEntry? none "name" ["owner"] = some changed ∧
        evaluator.test changed reading = .ok true ∧
        evaluator.test changed passing =
          .error (.unresolvedField "owner.n.x" "x" "a number") := by
  intro evaluator inner record reading passing
  have hOwner : Eval.Leads ["owner"] record (.object inner) := .field rfl (.here _)
  have hNull : Eval.Leads ["owner", "name"] record .null :=
    .field rfl (.field rfl (.here _))
  obtain ⟨changed, hChanged, -, hApart, hRemoved⟩ :=
    test_of_unread_entry evaluator hOwner "name" none
  refine ⟨hOwner, hNull, changed, hChanged, ?_, ?_⟩
  · rw [hRemoved rfl hNull reading (by decide)]
    cbv
  · rw [hApart passing (by decide)]
    cbv

end Evaluator
end RecordFilter

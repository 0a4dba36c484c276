/-
Filters read from their own JSON.

The kind of a value is not written, but the JSON of each kind is of a form of its own, so
that a filter is found again in its JSON with all kinds of its values, compact or
indented.  A floating number that is not finite becomes null, which no value is; then
nothing is read.
-/
import RecordFilter.Filter.Encoding
import RecordFilter.Proofs.Json.Rereading

namespace RecordFilter

/-! ### Floating numbers inside -/

namespace Atom

mutual

def floats : Atom → List Float
  | .float x => [x]
  | .list items => itemFloats items
  | _ => []

def itemFloats : List Atom → List Float
  | [] => []
  | item :: items => item.floats ++ itemFloats items

end

end Atom

namespace Filter

mutual

def floats : Filter → List Float
  | .leaf _ _ value => value.floats
  | .group _ children => childFloats children

def childFloats : List Filter → List Float
  | [] => []
  | child :: children => child.floats ++ childFloats children

end

end Filter

/-! ### Values -/

namespace Atom

mutual

theorem mem_floats_of_toJson : ∀ (atom : Atom) {x : Json.Finite}, x ∈ atom.toJson.floats →
    x.value ∈ atom.floats
  | .bool _, _, hMem => absurd hMem List.not_mem_nil
  | .integer _, _, hMem => absurd hMem List.not_mem_nil
  | .text _, _, hMem => absurd hMem List.not_mem_nil
  | .float y, x, hMem => by
      rw [toJson, Json.Finite.ofFloat?] at hMem
      by_cases hFinite : y.isFinite = true
      · rw [dif_pos hFinite] at hMem
        rw [List.mem_singleton.1 hMem]
        exact List.mem_singleton_self y
      · rw [dif_neg hFinite] at hMem
        exact absurd hMem List.not_mem_nil
  | .list items, _, hMem => mem_itemFloats_of_toJson items hMem

theorem mem_itemFloats_of_toJson : ∀ (items : List Atom) {x : Json.Finite},
    x ∈ Json.itemFloats (itemsToJson items) → x.value ∈ itemFloats items
  | [], _, hMem => absurd hMem List.not_mem_nil
  | item :: items, x, hMem => by
      rw [itemsToJson, Json.itemFloats, List.mem_append] at hMem
      rw [itemFloats, List.mem_append]
      exact hMem.imp (mem_floats_of_toJson item) (mem_itemFloats_of_toJson items)

end

mutual

theorem arranged_toJson : ∀ atom : Atom, atom.toJson.arranged = atom.toJson
  | .bool _ => rfl
  | .integer _ => rfl
  | .text _ => rfl
  | .float x => by
      rw [toJson]
      cases Json.Finite.ofFloat? x <;> rfl
  | .list items => congrArg Json.Value.array (arrangedItems_toJson items)

theorem arrangedItems_toJson : ∀ items : List Atom,
    Json.arrangedItems (itemsToJson items) = itemsToJson items
  | [] => rfl
  | item :: items => by
      rw [itemsToJson, Json.arrangedItems, arranged_toJson item, arrangedItems_toJson items]

end

theorem ofWhole_ofInt64 (n : Int64) : ofWhole (.ofInt64 n) = .integer n := by
  have hFits : (Json.Whole.ofInt64 n).value < 0x8000000000000000 := n.toInt_lt
  rw [ofWhole, if_pos hFits]
  exact congrArg Atom.integer n.ofInt_toInt

mutual

/-- A value is found again in its JSON exactly if all its floating numbers are finite. -/
theorem ofJson?_toJson : ∀ atom : Atom,
    ofJson? atom.toJson = if atom.floats.all Float.isFinite then some atom else none
  | .bool _ => rfl
  | .integer n => congrArg some (ofWhole_ofInt64 n)
  | .text _ => rfl
  | .float x => by
      rw [toJson, Json.Finite.ofFloat?, floats, List.all_cons, List.all_nil, Bool.and_true]
      by_cases hFinite : x.isFinite = true
      · rw [dif_pos hFinite, if_pos hFinite]
        rfl
      · rw [dif_neg hFinite, if_neg hFinite]
        rfl
  | .list items => by
      rw [toJson, ofJson?, itemsOfJson?_toJson items, floats]
      by_cases hFinite : (itemFloats items).all Float.isFinite = true
      · rw [if_pos hFinite, if_pos hFinite]
      · rw [if_neg hFinite, if_neg hFinite]

theorem itemsOfJson?_toJson : ∀ items : List Atom,
    itemsOfJson? (itemsToJson items) =
      if (itemFloats items).all Float.isFinite then some items else none
  | [] => rfl
  | item :: items => by
      rw [itemsToJson, itemsOfJson?, ofJson?_toJson item, itemsOfJson?_toJson items, itemFloats,
        List.all_append]
      cases item.floats.all Float.isFinite with
      | false => rfl
      | true => cases (itemFloats items).all Float.isFinite <;> rfl

end

end Atom

/-! ### Trees -/

namespace Filter

mutual

theorem mem_floats_of_toJson : ∀ (filter : Filter) {x : Json.Finite}, x ∈ filter.toJson.floats →
    x.value ∈ filter.floats
  | .leaf field operator value, x, hMem => by
      simp only [toJson, Json.Value.floats, Json.entryFloats, List.nil_append,
        List.append_nil] at hMem
      exact value.mem_floats_of_toJson hMem
  | .group logic children, x, hMem => by
      simp only [toJson, Logic.toJson, Json.Value.floats, Json.entryFloats, List.nil_append,
        List.append_nil] at hMem
      exact mem_childFloats_of_toJson children hMem

theorem mem_childFloats_of_toJson : ∀ (children : List Filter) {x : Json.Finite},
    x ∈ Json.itemFloats (childrenToJson children) → x.value ∈ childFloats children
  | [], _, hMem => absurd hMem List.not_mem_nil
  | child :: children, x, hMem => by
      rw [childrenToJson, Json.itemFloats, List.mem_append] at hMem
      rw [childFloats, List.mem_append]
      exact hMem.imp (mem_floats_of_toJson child) (mem_childFloats_of_toJson children)

end

theorem arranged_leaf (field operator : String) (value : Atom) :
    (leaf field operator value).toJson.arranged =
      .object [("leaf", .object
        [("field", .text field), ("operator", .text operator), ("value", value.toJson)])] := by
  have hOperator : Json.keyOrder "operator" "field" = .gt := by decide
  have hField : Json.keyOrder "value" "field" = .gt := by decide
  have hValue : Json.keyOrder "value" "operator" = .gt := by decide
  simp only [toJson, Json.Value.arranged, Json.arrangedEntries, value.arranged_toJson,
    Json.Value.ofEntries, List.foldl_cons, List.foldl_nil, Json.insertEntry, hOperator, hField,
    hValue]

theorem arranged_group (logic : Logic) (children : List Filter) :
    (group logic children).toJson.arranged =
      .object [("group", .object
        [("children", .array (Json.arrangedItems (childrenToJson children))),
          ("logic", logic.toJson)])] := by
  have hChildren : Json.keyOrder "children" "logic" = .lt := by decide
  simp only [toJson, Logic.toJson, Json.Value.arranged, Json.arrangedEntries,
    Json.Value.ofEntries, List.foldl_cons, List.foldl_nil, Json.insertEntry, hChildren]

theorem ofJson?_logic (logic : Logic) : Logic.ofJson? logic.toJson = some logic := by
  cases logic <;> rfl

mutual

/-- A filter is found again in its JSON exactly if all its floating numbers are finite. -/
theorem ofJson?_toJson : ∀ filter : Filter,
    ofJson? filter.toJson.arranged =
      if filter.floats.all Float.isFinite then some filter else none
  | .leaf field operator value => by
      rw [arranged_leaf, ofJson?, if_pos rfl, floats]
      simp only [leafOfJson?, Json.lookup?, String.reduceEq, if_true, if_false, leafOfParts?,
        value.ofJson?_toJson]
      cases value.floats.all Float.isFinite <;> rfl
  | .group logic children => by
      -- a group is no comparison, since its only key is another one
      rw [arranged_group, ofJson?, if_neg (by decide), if_pos rfl, floats]
      simp only [groupOfJson?, Json.lookup?, String.reduceEq, if_true, if_false, childrenAmong?,
        childrenOfJson?, itemsOfJson?_toJson children]
      cases (childFloats children).all Float.isFinite with
      | false => rfl
      | true => simp [groupOfParts?, ofJson?_logic]

theorem itemsOfJson?_toJson : ∀ children : List Filter,
    itemsOfJson? (Json.arrangedItems (childrenToJson children)) =
      if (childFloats children).all Float.isFinite then some children else none
  | [] => rfl
  | child :: children => by
      rw [childrenToJson, Json.arrangedItems, itemsOfJson?, ofJson?_toJson child,
        itemsOfJson?_toJson children, childFloats, List.all_append]
      cases child.floats.all Float.isFinite with
      | false => rfl
      | true => cases (childFloats children).all Float.isFinite <;> rfl

end

/-! ### The text of a tree -/

def ofJsonText? (text : String) : Option Filter :=
  (Json.Value.parse? text).bind ofJson?

theorem parse?_toJson {filter : Filter} (hDepth : filter.toJson.depth ≤ Json.nestingLimit)
    (hReads : ∀ x ∈ filter.toJson.floats, x.ReadsBack) :
    Json.Value.parse? filter.toJson.compact = some filter.toJson.arranged ∧
      Json.Value.parse? filter.toJson.indented = some filter.toJson.arranged := by
  constructor
  · rw [Json.Value.parse?, Json.Value.compact, String.toList_ofList]
    exact Json.Value.ofText?_write hDepth hReads
  · rw [Json.Value.parse?, Json.Value.indented, String.toList_ofList]
    exact Json.Value.ofText?_writeIndented hDepth hReads 0

/-- From its own JSON, compact or indented, a filter is read with all its kinds of values
exactly if all its floating numbers are finite; if one is not, nothing is read.  The JSON
must not be nested too deep, and the texts of finite numbers have to be read as these
numbers. -/
theorem ofJsonText?_toJson (filter : Filter)
    (hDepth : filter.toJson.depth ≤ Json.nestingLimit)
    (hReads : ∀ x ∈ filter.floats, ∀ hFinite : x.isFinite = true,
      Json.Finite.ReadsBack ⟨x, hFinite⟩) :
    ∀ text ∈ [filter.toJson.compact, filter.toJson.indented],
      (ofJsonText? text = some filter ↔ ∀ x ∈ filter.floats, x.isFinite = true) ∧
      ((∃ x ∈ filter.floats, x.isFinite = false) → ofJsonText? text = none) := by
  have hJson : ∀ x ∈ filter.toJson.floats, x.ReadsBack := fun x hMem =>
    hReads x.value (filter.mem_floats_of_toJson hMem) x.isFinite
  obtain ⟨hCompact, hIndented⟩ := parse?_toJson hDepth hJson
  have hRead : ∀ text ∈ [filter.toJson.compact, filter.toJson.indented], ofJsonText? text =
      if filter.floats.all Float.isFinite then some filter else none := by
    rw [List.forall_mem_cons, List.forall_mem_singleton, ofJsonText?, ofJsonText?, hCompact,
      hIndented]
    exact ⟨filter.ofJson?_toJson, filter.ofJson?_toJson⟩
  intro text hText
  rw [hRead text hText, ← List.all_eq_true]
  constructor
  · constructor
    · intro hSome
      by_contra hInfinite
      rw [if_neg hInfinite] at hSome
      cases hSome
    · intro hFinite
      rw [if_pos hFinite]
  · rintro ⟨x, hMem, hInfinite⟩
    apply if_neg
    intro hAll
    have hFinite := List.all_eq_true.1 hAll x hMem
    rw [hInfinite] at hFinite
    cases hFinite

/-- Values of all kinds in lists and empty groups; and an infinite number in a list. -/
theorem ofJsonText?_toJson_kinds :
    let kinds : Atom := .list [.bool true, .integer 1, .float 1.0, .text "1", .list []]
    let finite : Filter := .any [.leaf "a" "in" kinds, .all [], .leaf "b" "eq" (.integer (-7))]
    let infinite : Filter := .all [.leaf "a" "in" (.list [.list [.float Decimal.infinity]])]
    (finite.toJson.depth ≤ Json.nestingLimit ∧ ofJsonText? finite.toJson.compact = some finite ∧
      ofJsonText? finite.toJson.indented = some finite) ∧
    (infinite.toJson.depth ≤ Json.nestingLimit ∧ ofJsonText? infinite.toJson.compact = none) := by
  intro kinds finite infinite
  have hDepth : finite.toJson.depth ≤ Json.nestingLimit := by decide
  have hReads : ∀ x ∈ finite.floats, ∀ hFinite : x.isFinite = true,
      Json.Finite.ReadsBack ⟨x, hFinite⟩ := by
    decide +kernel
  have hFinite : ∀ x ∈ finite.floats, x.isFinite = true := by
    decide +kernel
  have hInfiniteDepth : infinite.toJson.depth ≤ Json.nestingLimit := by decide
  have hInfinite : ∀ x ∈ infinite.floats, x.isFinite = false := by
    decide +kernel
  have hNothing : ∀ x ∈ infinite.floats, ∀ hFinite : x.isFinite = true,
      Json.Finite.ReadsBack ⟨x, hFinite⟩ := by
    intro x hMem hOther
    rw [hInfinite x hMem] at hOther
    cases hOther
  have hKinds := ofJsonText?_toJson finite hDepth hReads
  have hNone := ofJsonText?_toJson infinite hInfiniteDepth hNothing _ List.mem_cons_self
  refine ⟨⟨hDepth, (hKinds _ List.mem_cons_self).1.2 hFinite, ?_⟩, hInfiniteDepth, hNone.2 ?_⟩
  · exact (hKinds _ (List.mem_cons_of_mem _ List.mem_cons_self)).1.2 hFinite
  · have hMem : Decimal.infinity ∈ infinite.floats := List.mem_singleton_self _
    exact ⟨Decimal.infinity, hMem, hInfinite _ hMem⟩

end Filter
end RecordFilter

/-
The tokens of a written tree.

`spell` gives the tokens of a tree directly: its text is their join
(`join_spell`), for any tree.  The tokens of a printable tree are a level with the
simplified tree, its values replaced by their texts; so a printable tree is read
back (`parse_render`).
-/
import RecordFilter.Proofs.Filter.Normal
import RecordFilter.Proofs.Filter.Reading

namespace RecordFilter
namespace Filter

open Text (join)

/-! ### Brackets in a joined text -/

theorem join_openFirst {tokens : List Token} (hSome : tokens ≠ []) :
    join delimiter (openFirst tokens) = leftBracket :: join delimiter tokens := by
  rcases tokens with _ | ⟨token, _ | ⟨next, tokens⟩⟩
  · exact absurd rfl hSome
  · rfl
  · rfl

theorem closeLast_ne_nil {tokens : List Token} (hSome : tokens ≠ []) :
    closeLast tokens ≠ [] := by
  rcases tokens with _ | ⟨token, _ | ⟨next, tokens⟩⟩
  · exact absurd rfl hSome
  · simp [closeLast]
  · simp [closeLast]

theorem join_closeLast {tokens : List Token} (hSome : tokens ≠ []) :
    join delimiter (closeLast tokens) = join delimiter tokens ++ [rightBracket] := by
  induction tokens with
  | nil => exact absurd rfl hSome
  | cons token tokens ih =>
      cases tokens with
      | nil => rfl
      | cons next more =>
          have hRest := ih (by simp)
          have hClosed := closeLast_ne_nil (List.cons_ne_nil next more)
          rw [closeLast, Text.join_cons token hClosed, hRest, Text.join_cons token (by simp),
            List.append_assoc, List.cons_append]

theorem join_enclose {tokens : List Token} (hSome : tokens ≠ []) :
    join delimiter (enclose tokens) = leftBracket :: join delimiter tokens ++ [rightBracket] := by
  rw [enclose, join_openFirst (closeLast_ne_nil hSome), join_closeLast hSome]
  rfl

/-! ### Connectives between tokens -/

theorem delimiter_not_mem_word (logic : Logic) : delimiter ∉ logic.word := by
  cases logic <;> decide

theorem join_connective (logic : Logic) {tokens rest : List Token} (hTokens : tokens ≠ [])
    (hRest : rest ≠ []) :
    join delimiter (tokens ++ logic.word :: rest) =
      join delimiter tokens ++ connective logic ++ join delimiter rest := by
  rw [Text.join_append hTokens (List.cons_ne_nil _ rest), Text.join_cons logic.word hRest,
    connective]
  simp

/-! ### Spelling -/

mutual

/-- The tokens of a filter, with brackets around a group unless it is at the top.  A
group without members is one empty token. -/
def spell (top : Bool) : Filter → List Token
  | .leaf field operator value => [field.toList, operator.toList, value.write]
  | .group _ [] => [[]]
  | .group _ [only] => only.spell top
  | .group logic (child :: next :: children) =>
      let tokens := spellRun logic (child :: next :: children)
      if top then tokens else enclose tokens

def spellRun (logic : Logic) : List Filter → List Token
  | [] => [[]]
  | [only] => only.spell false
  | child :: next :: children =>
      child.spell false ++ logic.word :: spellRun logic (next :: children)

end

mutual

theorem spell_ne_nil : ∀ (top : Bool) (filter : Filter), filter.spell top ≠ []
  | _, .leaf _ _ _ => by simp [spell]
  | _, .group _ [] => by simp [spell]
  | top, .group _ [only] => by
      rw [spell]
      exact spell_ne_nil top only
  | top, .group logic (child :: next :: children) => by
      have hRun := spellRun_ne_nil logic (child :: next :: children)
      rw [spell]
      cases top with
      | true => exact hRun
      | false =>
          intro hEmpty
          have hLength := (loosens_enclose (spellRun logic (child :: next :: children))).length_eq
          rw [show enclose _ = [] from hEmpty] at hLength
          exact hRun (List.eq_nil_of_length_eq_zero hLength)

theorem spellRun_ne_nil : ∀ (logic : Logic) (children : List Filter),
    spellRun logic children ≠ []
  | _, [] => by simp [spellRun]
  | _, [only] => by
      rw [spellRun]
      exact spell_ne_nil false only
  | _, _ :: _ :: _ => by simp [spellRun]

end

def writeRun (logic : Logic) : List Filter → List Char
  | [] => []
  | child :: children => child.write false ++ writeMore logic children

theorem write_group {top : Bool} (logic : Logic) (child next : Filter)
    (children : List Filter) :
    (group logic (child :: next :: children)).write top =
      bracket top (writeRun logic (child :: next :: children)) := by
  rw [write, writeRun]

mutual

theorem join_spell : ∀ (top : Bool) (filter : Filter),
    join delimiter (filter.spell top) = filter.write top
  | _, .leaf _ _ _ => by simp [spell, write, join]
  | _, .group _ [] => rfl
  | top, .group _ [only] => by
      rw [spell, write]
      exact join_spell top only
  | top, .group logic (child :: next :: children) => by
      have hRun := join_spellRun logic (child :: next :: children)
      rw [spell, write_group, ← hRun]
      cases top with
      | true => rfl
      | false => exact join_enclose (spellRun_ne_nil logic _)

theorem join_spellRun : ∀ (logic : Logic) (children : List Filter),
    join delimiter (spellRun logic children) = writeRun logic children
  | _, [] => rfl
  | _, [only] => by
      rw [spellRun, writeRun, writeMore, List.append_nil]
      exact join_spell false only
  | logic, child :: next :: children => by
      have hChild := join_spell false child
      have hRest := join_spellRun logic (next :: children)
      rw [spellRun, join_connective logic (spell_ne_nil false child) (spellRun_ne_nil logic _),
        hChild, hRest]
      simp only [writeRun, writeMore, List.append_assoc]

end

/-! ### The tokens of printable trees -/

mutual

theorem spell_free : ∀ (top : Bool) (filter : Filter), filter.Every IsPrintable →
    ∀ token ∈ filter.spell top, delimiter ∉ token
  | _, .leaf _ _ value, hPrintable => by
      have hValue : delimiter ∉ value.write := by
        simpa [Atom.display] using hPrintable.value_free
      simp [spell, hPrintable.field_free, hPrintable.operator_free, hValue]
  | _, .group _ [], hPrintable => absurd rfl hPrintable.1
  | top, .group _ [only], hPrintable => by
      rw [spell]
      exact spell_free top only hPrintable.2.1
  | top, .group logic (child :: next :: children), hPrintable => by
      have hRun := spellRun_free logic (child :: next :: children) hPrintable.1 hPrintable.2
      rw [spell]
      cases top with
      | true => exact hRun
      | false => exact (loosens_enclose _).delimiter_free_iff.mpr hRun

theorem spellRun_free : ∀ (logic : Logic) (children : List Filter), children ≠ [] →
    EveryIn IsPrintable children → ∀ token ∈ spellRun logic children, delimiter ∉ token
  | _, [], hSome, _ => absurd rfl hSome
  | _, [only], _, hPrintable => by
      rw [spellRun]
      exact spell_free false only hPrintable.1
  | logic, child :: next :: children, _, hPrintable => by
      rw [spellRun, List.forall_mem_append, List.forall_mem_cons]
      exact ⟨spell_free false child hPrintable.1, delimiter_not_mem_word logic,
        spellRun_free logic (next :: children) (List.cons_ne_nil next children) hPrintable.2⟩

end

mutual

theorem isItem_spell : ∀ filter : Filter, filter.Every IsPrintable →
    IsItem (filter.spell false) filter.simplify.textual
  | .leaf field operator value, hPrintable => by
      obtain ⟨hField, -, hHead, hOperator, -, hValue, -, hLast⟩ := hPrintable
      have hItem := IsItem.leaf hField hOperator hValue hHead hLast
      simpa [spell, simplify, textual, Atom.display] using hItem
  | .group _ [], hPrintable => absurd rfl hPrintable.1
  | .group _ [only], hPrintable => by
      rw [spell]
      exact isItem_spell only hPrintable.2.1
  | .group logic (child :: next :: children), hPrintable => by
      have hRun := isRun_spell logic (child :: next :: children) hPrintable.1 hPrintable.2
      rw [spell]
      exact .level hRun

theorem isRun_spell : ∀ (logic : Logic) (children : List Filter), children ≠ [] →
    EveryIn IsPrintable children →
      IsRun logic (spellRun logic children) (textualAll (simplifyAll children))
  | _, [], hSome, _ => absurd rfl hSome
  | _, [only], _, hPrintable => by
      rw [spellRun]
      exact .last (isItem_spell only hPrintable.1)
  | logic, child :: next :: children, _, hPrintable => by
      rw [spellRun]
      exact .more (isItem_spell child hPrintable.1)
        (isRun_spell logic (next :: children) (List.cons_ne_nil next children) hPrintable.2)

end

theorem isLevel_spell : ∀ filter : Filter, filter.Every IsPrintable →
    IsLevel (filter.spell true) filter.simplify.textual
  | .leaf field operator value, hPrintable => (isItem_spell (.leaf field operator value)
      hPrintable).isLevel
  | .group _ [], hPrintable => absurd rfl hPrintable.1
  | .group _ [only], hPrintable => by
      rw [spell]
      exact isLevel_spell only hPrintable.2.1
  | .group logic (child :: next :: children), hPrintable => by
      have hRun := isRun_spell logic (child :: next :: children) hPrintable.1 hPrintable.2
      rw [spell]
      exact ⟨logic, _, hRun, rfl⟩

/-! ### Reading a written tree -/

theorem split_render {filter : Filter} (hPrintable : filter.Every IsPrintable) :
    Text.split delimiter filter.render.toList = filter.spell true := by
  rw [render, String.toList_ofList, ← join_spell]
  exact Text.split_join (spell_ne_nil true filter) (spell_free true filter hPrintable)

theorem parse_render {filter : Filter} (hPrintable : filter.Every IsPrintable) :
    parse filter.render = .ok (some filter.simplify.textual) := by
  rw [parse_eq_ok_some_iff, split_render hPrintable]
  exact isLevel_spell filter hPrintable

theorem isNormal_of_parse {input : String} {filter : Filter}
    (hParse : parse input = .ok (some filter)) : filter.IsNormal :=
  (parse_eq_ok_some_iff.mp hParse).isNormal fun _ hToken => Text.not_mem_of_mem_split hToken

end Filter
end RecordFilter

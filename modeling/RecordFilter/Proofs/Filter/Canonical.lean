/-
The normal form of a filter text.

Whatever tokens denote a tree, they are the tokens of the written tree with
brackets added.  So the written tree is the one shortest text among all those
that denote it.
-/
import Mathlib
import RecordFilter.Command.Check
import RecordFilter.Proofs.Filter.Spelling

namespace RecordFilter
namespace Filter

/-! ### Derived tokens against spelled ones -/

theorem spellRun_cons {logic : Logic} (child : Filter) {children : List Filter}
    (hSome : children ≠ []) :
    spellRun logic (child :: children) =
      child.spell false ++ logic.word :: spellRun logic children := by
  cases children with
  | nil => exact absurd rfl hSome
  | cons next children => rw [spellRun]

mutual

theorem IsItem.loosens_spell : ∀ {tokens : List Token} {tree : Filter},
    IsItem tokens tree → Loosens (tree.spell false) tokens
  | _, _, .leaf _ _ _ _ _ => by
      simp only [spell, Atom.write, String.toList_ofList]
      exact Loosens.refl _
  | _, _, @IsItem.level logic tokens trees hRun => by
      have hLoosens := hRun.loosens_spellRun
      rcases trees with _ | ⟨only, _ | ⟨next, trees⟩⟩
      · exact absurd rfl hRun.trees_ne_nil
      · rw [spellRun] at hLoosens
        exact hLoosens.enclose_right
      · change Loosens ((group logic (only :: next :: trees)).spell false) (enclose tokens)
        rw [spell]
        exact hLoosens.enclose

theorem IsRun.loosens_spellRun : ∀ {logic : Logic} {tokens : List Token}
    {trees : List Filter}, IsRun logic tokens trees → Loosens (spellRun logic trees) tokens
  | _, _, _, .last hItem => by
      rw [spellRun]
      exact hItem.loosens_spell
  | logic, _, _, .more hItem hRest => by
      rw [spellRun_cons _ hRest.trees_ne_nil]
      exact hItem.loosens_spell.append (.cons (.refl logic.word) hRest.loosens_spellRun)

end

theorem loosens_spell_false : ∀ filter : Filter,
    Loosens (filter.spell true) (filter.spell false)
  | .leaf _ _ _ => Loosens.refl _
  | .group _ [] => Loosens.refl _
  | .group _ [only] => by
      rw [spell, spell]
      exact loosens_spell_false only
  | .group logic (child :: next :: children) => by
      rw [spell, spell]
      exact loosens_enclose _

theorem IsLevel.loosens_spell {tokens : List Token} {tree : Filter}
    (hLevel : IsLevel tokens tree) : Loosens (tree.spell true) tokens := by
  obtain ⟨logic, trees, hRun, rfl⟩ := hLevel
  have hLoosens := hRun.loosens_spellRun
  rcases trees with _ | ⟨only, _ | ⟨next, trees⟩⟩
  · exact absurd rfl hRun.trees_ne_nil
  · rw [spellRun] at hLoosens
    exact (loosens_spell_false only).trans hLoosens
  · change Loosens ((group logic (only :: next :: trees)).spell true) tokens
    rw [spell]
    exact hLoosens

/-! ### The normal form -/

theorem length_render (filter : Filter) :
    filter.render.length = (Text.join delimiter (filter.spell true)).length := by
  rw [render, String.length_ofList, join_spell]

theorem loosens_of_parse {input : String} {filter : Filter}
    (hParse : parse input = .ok (some filter)) :
    Loosens (filter.spell true) (Text.split delimiter input.toList) :=
  (parse_eq_ok_some_iff.mp hParse).loosens_spell

theorem parse_render_of_parse {input : String} {filter : Filter}
    (hParse : parse input = .ok (some filter)) : parse filter.render = .ok (some filter) := by
  have hNormal := isNormal_of_parse hParse
  have hAgain := parse_render hNormal.printable
  rw [hNormal.simplify_eq, hNormal.textual_eq] at hAgain
  exact hAgain

/-- The text of a tree that was read is read as the same tree, and it is the one shortest
text that is: every other one has brackets added to its tokens.  So a check answers every
text of a tree with this one. -/
theorem render_shortest_of_parse (input : String) (filter : Filter)
    (hParse : parse input = .ok (some filter)) :
    parse filter.render = .ok (some filter) ∧
    filter.render.length ≤ input.length ∧
    (filter.render.length = input.length → input = filter.render) ∧
    Loosens (Text.split delimiter filter.render.toList)
      (Text.split delimiter input.toList) ∧
    (Command.CheckRequest.mk input false).run = .ok (filter.render ++ "\n") ∧
    ∀ asJson, (Command.CheckRequest.mk filter.render asJson).run =
      (Command.CheckRequest.mk input asJson).run := by
  have hAgain := parse_render_of_parse hParse
  have hLoosens := loosens_of_parse hParse
  have hSplit := split_render (isNormal_of_parse hParse).printable
  have hInput : (Text.join delimiter (Text.split delimiter input.toList)).length =
      input.length := by
    rw [Text.join_split, String.length_toList]
  refine ⟨hAgain, ?_, ?_, ?_, ?_, ?_⟩
  · rw [length_render, ← hInput]
    exact hLoosens.length_join_le
  · intro hLength
    rw [length_render, ← hInput] at hLength
    have hTokens := hLoosens.eq_of_length_join_le (Nat.le_of_eq hLength.symm)
    rw [← String.toList_inj, ← Text.join_split delimiter input.toList, hTokens, ← hSplit,
      Text.join_split]
  · rw [hSplit]
    exact hLoosens
  · simp only [Command.CheckRequest.run, hParse]
    simp [Command.CheckRequest.report, renderOption]
  · intro asJson
    simp only [Command.CheckRequest.run, hParse, hAgain]
    rfl

/-- A text with a pair of brackets around the whole and one around a comparison. -/
theorem render_shortest_redundant_brackets :
    ∃ filter, parse "((a~eq~a~or~b~eq~b)~and~(c~eq~c))" = .ok (some filter) ∧
      parse filter.render = .ok (some filter) ∧
      filter.render.length ≤ "((a~eq~a~or~b~eq~b)~and~(c~eq~c))".length := by
  have hParse : parse "((a~eq~a~or~b~eq~b)~and~(c~eq~c))" =
      .ok (some (.all [.any [.leaf "a" "eq" (.text "a"), .leaf "b" "eq" (.text "b")],
        .leaf "c" "eq" (.text "c")])) := by
    rw [parse_eq_ofTokens]
    cbv
  obtain ⟨hAgain, hLength, -⟩ := render_shortest_of_parse _ _ hParse
  exact ⟨_, hParse, hAgain, hLength⟩

end Filter
end RecordFilter

/-
Writing a tree and reading it again.

The printable trees are exactly those that come back: simplified, with texts as
values, and with the same text.
-/
import RecordFilter.Proofs.Filter.Spelling

namespace RecordFilter
namespace Filter

def IsTextual (_field _operator : String) (value : Atom) : Prop := ∃ text, value = .text text

instance (field operator : String) : ∀ value, Decidable (IsTextual field operator value)
  | .text text => .isTrue ⟨text, rfl⟩
  | .bool _ | .integer _ | .float _ | .list _ => .isFalse (by rintro ⟨text, hText⟩; cases hText)

mutual

theorem textual_eq_self : ∀ {filter : Filter}, filter.Every IsTextual → filter.textual = filter
  | .leaf _ _ value, hTextual => by
      obtain ⟨text, rfl⟩ := hTextual
      rw [textual, display_text]
  | .group _ children, hTextual => by
      rw [textual, textualAll_eq_self hTextual.2]

theorem textualAll_eq_self : ∀ {children : List Filter}, EveryIn IsTextual children →
    textualAll children = children
  | [], _ => rfl
  | child :: children, hTextual => by
      rw [textualAll, textual_eq_self hTextual.1, textualAll_eq_self hTextual.2]

end

theorem isPrintable_text_iff (field operator : String) (value : Atom) :
    IsPrintable field operator (.text value.display) ↔ IsPrintable field operator value := by
  constructor <;> rintro ⟨hField, hFree, hHead, hOperator, hOperatorFree, hValue⟩ <;>
    constructor <;> simp_all [display_text]

theorem every_isPrintable_iff (filter : Filter) :
    filter.simplify.textual.Every IsPrintable ↔ filter.Every IsPrintable := by
  rw [every_textual_iff isPrintable_text_iff, every_simplify_iff]

theorem render_simplify_textual (filter : Filter) :
    filter.simplify.textual.render = filter.render := by
  rw [render, render, sameText_textual filter.simplify true, sameText_simplify filter true]

/-- A tree is read back from its text, simplified and with its values replaced by their
texts, exactly when no group in it is empty and every comparison is printable.  Then the
text stays the same, and so does the simplified tree if its values are texts. -/
theorem parse_render_iff_printable (filter : Filter) :
    (parse (renderOption (some filter)) = .ok (some filter.simplify.textual) ↔
      filter.Every IsPrintable) ∧
    (filter.Every IsPrintable → filter.Every IsTextual →
      parse (renderOption (some filter)) = .ok (some filter.simplify)) ∧
    (filter.Every IsPrintable →
      ∃ again, parse (renderOption (some filter)) = .ok again ∧
        renderOption again = renderOption (some filter)) := by
  refine ⟨⟨?_, parse_render⟩, ?_, ?_⟩
  · intro hParse
    rw [← every_isPrintable_iff]
    exact (isNormal_of_parse hParse).printable
  · intro hPrintable hTextual
    have hParse := parse_render hPrintable
    have hSimplified : filter.simplify.Every IsTextual := every_simplify_iff filter |>.mpr hTextual
    rw [textual_eq_self hSimplified] at hParse
    exact hParse
  · intro hPrintable
    exact ⟨_, parse_render hPrintable, render_simplify_textual filter⟩

/-- A tree with a group of one member, a bracket inside a field and a value that begins
with one. -/
theorem parse_render_nested_single :
    let filter : Filter := .any [.all [.leaf "a" "eq" (.text "1"), .leaf "b" "eq" (.text "(2")],
      .all [.any [.leaf "f(x)y" "eq" (.text "3")]]]
    filter.Every IsPrintable ∧ filter.Every IsTextual ∧
      parse (renderOption (some filter)) = .ok (some filter.simplify.textual) ∧
      parse (renderOption (some filter)) = .ok (some filter.simplify) ∧
      ∃ again, parse (renderOption (some filter)) = .ok again ∧
        renderOption again = renderOption (some filter) := by
  intro filter
  have hPrintable : filter.Every IsPrintable := by decide +kernel
  have hTextual : filter.Every IsTextual := by decide
  obtain ⟨hExact, hTexts, hAgain⟩ := parse_render_iff_printable filter
  exact ⟨hPrintable, hTextual, hExact.mpr hPrintable, hTexts hPrintable hTextual,
    hAgain hPrintable⟩

end Filter
end RecordFilter

/-
Tokens with brackets added.

One list of tokens loosens another one when it has the same tokens in the same
order, each with any number of opening brackets glued to its front and of
closing ones to its end.  A loosened text is never shorter, and it is as short
only if nothing was added.
-/
import Mathlib.Data.List.Forall2
import RecordFilter.Proofs.Filter.Grammar

namespace RecordFilter
namespace Filter

/-! ### One token -/

def AddsBrackets (tight loose : Token) : Prop :=
  ∃ opened closed, loose =
    List.replicate opened leftBracket ++ tight ++ List.replicate closed rightBracket

namespace AddsBrackets

variable {tight loose looser : Token}

theorem refl (token : Token) : AddsBrackets token token := ⟨0, 0, by simp⟩

theorem trans (hFirst : AddsBrackets tight loose) (hSecond : AddsBrackets loose looser) :
    AddsBrackets tight looser := by
  obtain ⟨opened, closed, rfl⟩ := hFirst
  obtain ⟨moreOpened, moreClosed, rfl⟩ := hSecond
  refine ⟨moreOpened + opened, closed + moreClosed, ?_⟩
  simp [← List.replicate_append_replicate]

theorem opening_right (hAdds : AddsBrackets tight loose) :
    AddsBrackets tight (leftBracket :: loose) := by
  obtain ⟨opened, closed, rfl⟩ := hAdds
  exact ⟨opened + 1, closed, by simp [List.replicate_succ]⟩

theorem closing_right (hAdds : AddsBrackets tight loose) :
    AddsBrackets tight (loose ++ [rightBracket]) := by
  obtain ⟨opened, closed, rfl⟩ := hAdds
  exact ⟨opened, closed + 1, by simp [List.replicate_succ']⟩

theorem opening (hAdds : AddsBrackets tight loose) :
    AddsBrackets (leftBracket :: tight) (leftBracket :: loose) := by
  obtain ⟨opened, closed, rfl⟩ := hAdds
  have hFront : leftBracket :: List.replicate opened leftBracket =
      List.replicate opened leftBracket ++ [leftBracket] := by
    rw [← List.replicate_succ, List.replicate_succ']
  refine ⟨opened, closed, ?_⟩
  rw [← List.cons_append, ← List.cons_append, hFront]
  simp

theorem closing (hAdds : AddsBrackets tight loose) :
    AddsBrackets (tight ++ [rightBracket]) (loose ++ [rightBracket]) := by
  obtain ⟨opened, closed, rfl⟩ := hAdds
  have hBack : List.replicate closed rightBracket ++ [rightBracket] =
      rightBracket :: List.replicate closed rightBracket := by
    rw [← List.replicate_succ, List.replicate_succ']
  refine ⟨opened, closed, ?_⟩
  rw [List.append_assoc, hBack]
  simp

theorem ne_nil (hAdds : AddsBrackets tight loose) (hTight : tight ≠ []) : loose ≠ [] := by
  obtain ⟨opened, closed, rfl⟩ := hAdds
  simp [hTight]

theorem delimiter_mem_iff (hAdds : AddsBrackets tight loose) :
    delimiter ∈ loose ↔ delimiter ∈ tight := by
  obtain ⟨opened, closed, rfl⟩ := hAdds
  have hLeft : delimiter ≠ leftBracket := by decide
  have hRight : delimiter ≠ rightBracket := by decide
  simp [List.mem_replicate, hLeft, hRight]

theorem length_le (hAdds : AddsBrackets tight loose) : tight.length ≤ loose.length := by
  obtain ⟨opened, closed, rfl⟩ := hAdds
  simp only [List.length_append, List.length_replicate]
  omega

theorem eq_of_length_le (hAdds : AddsBrackets tight loose)
    (hLength : loose.length ≤ tight.length) : loose = tight := by
  obtain ⟨opened, closed, rfl⟩ := hAdds
  simp only [List.length_append, List.length_replicate] at hLength
  have hOpened : opened = 0 := by omega
  have hClosed : closed = 0 := by omega
  simp [hOpened, hClosed]

end AddsBrackets

/-! ### Lists of tokens -/

def Loosens (tight loose : List Token) : Prop := List.Forall₂ AddsBrackets tight loose

namespace Loosens

variable {tight loose looser : List Token}

theorem refl (tokens : List Token) : Loosens tokens tokens :=
  List.forall₂_same.mpr fun token _ => AddsBrackets.refl token

theorem trans (hFirst : Loosens tight loose) (hSecond : Loosens loose looser) :
    Loosens tight looser := by
  induction hFirst generalizing looser with
  | nil => exact hSecond
  | cons hHead _ ih =>
      cases hSecond with
      | cons hNext hRest => exact .cons (hHead.trans hNext) (ih hRest)

theorem append {more looserMore : List Token} (hFirst : Loosens tight loose)
    (hMore : Loosens more looserMore) : Loosens (tight ++ more) (loose ++ looserMore) :=
  List.rel_append hFirst hMore

theorem openFirst_right (hLoosens : Loosens tight loose) :
    Loosens tight (openFirst loose) := by
  cases hLoosens with
  | nil => exact .nil
  | cons hHead hRest => exact .cons hHead.opening_right hRest

theorem closeLast_right (hLoosens : Loosens tight loose) :
    Loosens tight (closeLast loose) := by
  induction hLoosens with
  | nil => exact .nil
  | cons hHead hRest ih =>
      cases hRest with
      | nil => exact .cons hHead.closing_right .nil
      | cons hNext hMore => exact .cons hHead ih

theorem openFirst (hLoosens : Loosens tight loose) :
    Loosens (openFirst tight) (openFirst loose) := by
  cases hLoosens with
  | nil => exact .nil
  | cons hHead hRest => exact .cons hHead.opening hRest

theorem closeLast (hLoosens : Loosens tight loose) :
    Loosens (closeLast tight) (closeLast loose) := by
  induction hLoosens with
  | nil => exact .nil
  | cons hHead hRest ih =>
      cases hRest with
      | nil => exact .cons hHead.closing .nil
      | cons hNext hMore => exact .cons hHead ih

theorem enclose_right (hLoosens : Loosens tight loose) : Loosens tight (enclose loose) :=
  hLoosens.closeLast_right.openFirst_right

theorem enclose (hLoosens : Loosens tight loose) :
    Loosens (enclose tight) (enclose loose) :=
  hLoosens.closeLast.openFirst

theorem token_ne_nil (hLoosens : Loosens tight loose) (hTight : ∀ token ∈ tight, token ≠ []) :
    ∀ token ∈ loose, token ≠ [] := by
  induction hLoosens with
  | nil => simp
  | cons hHead _ ih =>
      rw [List.forall_mem_cons] at hTight ⊢
      exact ⟨hHead.ne_nil hTight.1, ih hTight.2⟩

theorem delimiter_free_iff (hLoosens : Loosens tight loose) :
    (∀ token ∈ loose, delimiter ∉ token) ↔ ∀ token ∈ tight, delimiter ∉ token := by
  induction hLoosens with
  | nil => simp
  | cons hHead _ ih =>
      rw [List.forall_mem_cons, List.forall_mem_cons, hHead.delimiter_mem_iff, ih]

theorem length_join_le (hLoosens : Loosens tight loose) :
    (Text.join delimiter tight).length ≤ (Text.join delimiter loose).length := by
  induction hLoosens with
  | nil => exact Nat.le_refl _
  | cons hHead hRest ih =>
      have hLength := hHead.length_le
      cases hRest with
      | nil => exact hLength
      | cons hNext hMore =>
          simp only [Text.join, List.length_append, List.length_cons] at ih ⊢
          omega

/-- A text with brackets added is as short only if there were none to add. -/
theorem eq_of_length_join_le (hLoosens : Loosens tight loose)
    (hLength : (Text.join delimiter loose).length ≤ (Text.join delimiter tight).length) :
    loose = tight := by
  induction hLoosens with
  | nil => rfl
  | cons hHead hRest ih =>
      have hHeadLength := hHead.length_le
      cases hRest with
      | nil => rw [hHead.eq_of_length_le hLength]
      | cons hNext hMore =>
          have hRestLength := Loosens.length_join_le (.cons hNext hMore)
          simp only [Text.join, List.length_append, List.length_cons] at ih hLength hRestLength
          rw [hHead.eq_of_length_le (by omega), ih (by omega)]

end Loosens

theorem loosens_enclose (tokens : List Token) : Loosens tokens (enclose tokens) :=
  (Loosens.refl tokens).enclose_right

/-! ### Tokens of derivations -/

mutual

theorem IsItem.token_ne_nil : ∀ {tokens : List Token} {tree : Filter},
    IsItem tokens tree → ∀ token ∈ tokens, token ≠ []
  | _, _, .leaf hField hOperator hValue _ _ => by
      simp [hField, hOperator, hValue]
  | _, _, .level hRun => (loosens_enclose _).token_ne_nil hRun.token_ne_nil

theorem IsRun.token_ne_nil : ∀ {logic : Logic} {tokens : List Token} {trees : List Filter},
    IsRun logic tokens trees → ∀ token ∈ tokens, token ≠ []
  | _, _, _, .last hItem => hItem.token_ne_nil
  | logic, _, _, .more hItem hRest => by
      have hWord : logic.word ≠ [] := by cases logic <;> decide
      rw [List.forall_mem_append, List.forall_mem_cons]
      exact ⟨hItem.token_ne_nil, hWord, hRest.token_ne_nil⟩

end

theorem IsLevel.token_ne_nil {tokens : List Token} {tree : Filter}
    (hLevel : IsLevel tokens tree) : ∀ token ∈ tokens, token ≠ [] := by
  obtain ⟨logic, trees, hRun, -⟩ := hLevel
  exact hRun.token_ne_nil

end Filter
end RecordFilter

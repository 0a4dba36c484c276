/-
The order of texts.

Texts are ordered by their first differing character, a text before its proper
extensions.  Characters are ordered by code point, which is also the order of
their UTF-8 bytes.  `order_eq_iff` says that only equal texts are tied, `order_trans`
that a text before another is before all that the other is before.
-/

namespace RecordFilter
namespace Text

def order : List Char → List Char → Ordering
  | [], [] => .eq
  | [], _ :: _ => .lt
  | _ :: _, [] => .gt
  | c :: cs, d :: ds =>
      if c.toNat < d.toNat then .lt
      else if d.toNat < c.toNat then .gt
      else order cs ds

theorem order_eq_iff (left right : List Char) : order left right = .eq ↔ left = right := by
  induction left generalizing right with
  | nil => cases right <;> simp [order]
  | cons c cs ih =>
      cases right with
      | nil => simp [order]
      | cons d ds =>
          unfold order
          by_cases hLess : c.toNat < d.toNat
          · have hNe : c ≠ d := fun h => by subst h; omega
            simp [hLess, hNe]
          · by_cases hMore : d.toNat < c.toNat
            · have hNe : c ≠ d := fun h => by subst h; omega
              simp [hLess, hMore, hNe]
            · have hEq : c = d := by
                apply Char.toNat_inj.1
                omega
              simp [hEq, ih]

theorem order_swap (left right : List Char) :
    (order left right).swap = order right left := by
  induction left generalizing right with
  | nil => cases right <;> rfl
  | cons c cs ih =>
      cases right with
      | nil => rfl
      | cons d ds =>
          unfold order
          by_cases hLess : c.toNat < d.toNat
          · have hNot : ¬ d.toNat < c.toNat := by omega
            simp [hLess, hNot]
          · by_cases hMore : d.toNat < c.toNat
            · simp [hLess, hMore]
            · simp [hLess, hMore, ih]

theorem order_trans {left middle right : List Char} (hFirst : order left middle = .lt)
    (hSecond : order middle right = .lt) : order left right = .lt := by
  induction left generalizing middle right with
  | nil =>
      cases right with
      | nil => cases middle <;> cases hSecond
      | cons => rfl
  | cons c cs ih =>
      cases middle with
      | nil => cases hFirst
      | cons d ds =>
          cases right with
          | nil => cases hSecond
          | cons e es =>
              unfold order at hFirst hSecond ⊢
              by_cases hLess : c.toNat < d.toNat
              · by_cases hMore : e.toNat < d.toNat
                · have hNot : ¬ d.toNat < e.toNat := by omega
                  simp [hNot, hMore] at hSecond
                · have hEnds : c.toNat < e.toNat := by omega
                  simp [hEnds]
              · by_cases hMore : d.toNat < c.toNat
                · simp [hLess, hMore] at hFirst
                · rw [if_neg hLess, if_neg hMore] at hFirst
                  have hSame : c.toNat = d.toNat := by omega
                  rw [hSame]
                  by_cases hNext : d.toNat < e.toNat
                  · simp [hNext]
                  · by_cases hBack : e.toNat < d.toNat
                    · simp [hNext, hBack] at hSecond
                    · rw [if_neg hNext, if_neg hBack] at hSecond ⊢
                      exact ih hFirst hSecond

end Text
end RecordFilter

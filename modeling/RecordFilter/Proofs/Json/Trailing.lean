/-
Blanks behind a text.

A blank at the end of a text is part of none of its tokens.  Where a token lacks its end
without the blank, it lacks it with the blank as well.
-/
import RecordFilter.Json.Reader
import RecordFilter.Proofs.Json.Tokens

namespace RecordFilter
namespace Json

theorem ofText?_plain {c : Char} {cs : List Char} (hPlain : ¬isSpacing c = true) :
    Token.ofText? (c :: cs) =
      match next? (c :: cs) with
      | none => none
      | some (token, rest) => (Token.ofText? rest).map fun tokens => token :: tokens := by
  rw [Token.ofText?, if_neg hPlain]
  split <;> rename_i hNext <;> rw [hNext]

/-! ### A blank at the end -/

theorem isSpacing_cases {c : Char} (hSpacing : isSpacing c = true) :
    c = ' ' ∨ c = '\t' ∨ c = '\n' ∨ c = '\r' := by
  simp only [isSpacing, Bool.or_eq_true, decide_eq_true_eq, or_assoc] at hSpacing
  exact hSpacing

theorem map_cons_append_blank (c blank : Char) (found : Option (List Char × List Char)) :
    (found.map fun pair => (pair.1, pair.2 ++ [blank])).map (fun pair => (c :: pair.1, pair.2)) =
      (found.map fun pair => (c :: pair.1, pair.2)).map
        fun pair => (pair.1, pair.2 ++ [blank]) := by
  cases found <;> rfl

section Blank

variable {blank : Char} (hBlank : isSpacing blank = true)
include hBlank

theorem hexValue?_blank : hexValue? blank = none := by
  rcases isSpacing_cases hBlank with rfl | rfl | rfl | rfl <;> rfl

theorem escaped?_blank : escaped? blank = none := by
  rcases isSpacing_cases hBlank with rfl | rfl | rfl | rfl <;> rfl

theorem readString?_blank (pending : Option Nat) : readString? pending [blank] = none := by
  rcases isSpacing_cases hBlank with rfl | rfl | rfl | rfl <;> simp [readString?]

theorem readString?_escape_blank {pending : Option Nat} {letter : Char} {rest : List Char}
    (hCode : ∀ a b c d more, letter = 'u' → rest = a :: b :: c :: d :: more → False)
    (hLetter : ∀ c, escaped? letter = some c → pending = none → False) :
    readString? pending ('\\' :: letter :: (rest ++ [blank])) = none := by
  by_cases hUnicode : letter = 'u'
  · subst hUnicode
    match rest with
    | [] => simp [readString?]
    | [a] => simp [readString?]
    | [a, b] => simp [readString?]
    | [a, b, c] => simp [readString?, hexCode?, hexValue?_blank hBlank]
    | a :: b :: c :: d :: more => exact (hCode a b c d more rfl rfl).elim
  · rw [readString?]
    · exact fun _ _ _ _ _ hSame => (hUnicode hSame).elim
    · exact hLetter

theorem readString?_append_blank (pending : Option Nat) (text : List Char) :
    readString? pending (text ++ [blank]) =
      (readString? pending text).map fun found => (found.1, found.2 ++ [blank]) := by
  -- the text is over; a quote; codes of four digits; letters behind a backslash; the rest
  fun_induction readString? pending text with
  | case1 pending => exact readString?_blank hBlank pending
  | case2 pending rest hPending => simp [readString?, hPending]
  | case3 pending rest hPending => simp [readString?, hPending]
  | case4 pending a b c d rest hCode => simp [readString?, hCode]
  | case5 a b c d rest code leading hCode hTrailing ih =>
      have hStep : ∀ rest, readString? (some leading) ('\\' :: 'u' :: a :: b :: c :: d :: rest) =
          (readString? none rest).map fun found => (pairChar leading code :: found.1, found.2) := by
        simp [readString?, hCode, hTrailing]
      simp only [List.cons_append, hStep, ih]
      exact map_cons_append_blank _ blank _
  | case6 a b c d rest code leading hCode hTrailing => simp [readString?, hCode, hTrailing]
  | case7 a b c d rest code hCode hTrailing => simp [readString?, hCode, hTrailing]
  | case8 a b c d rest code hCode hTrailing hLeading ih =>
      simp [readString?, hCode, hTrailing, hLeading, ih]
  | case9 a b c d rest code hCode hTrailing hLeading ih =>
      have hStep : ∀ rest, readString? none ('\\' :: 'u' :: a :: b :: c :: d :: rest) =
          (readString? none rest).map fun found => (Char.ofNat code :: found.1, found.2) := by
        simp [readString?, hCode, hTrailing, hLeading]
      simp only [List.cons_append, hStep, ih]
      exact map_cons_append_blank _ blank _
  | case10 letter rest hOther c hEscaped ih =>
      have hLetter : letter ≠ 'u' := by
        rintro rfl
        cases hEscaped
      have hStep : ∀ rest, readString? none ('\\' :: letter :: rest) =
          (readString? none rest).map fun found => (c :: found.1, found.2) := by
        simp [readString?, hLetter, hEscaped]
      simp only [List.cons_append, hStep, ih]
      exact map_cons_append_blank _ blank _
  | case11 pending letter rest hOther hNone =>
      exact readString?_escape_blank hBlank hOther hNone
  | case12 pending c rest hQuote hCode hEscape hPlain =>
      by_cases hSlash : c = '\\'
      · cases rest with
        | nil => simp [readString?, hSlash, escaped?_blank hBlank]
        | cons letter rest => exact (hEscape letter rest hSlash rfl).elim
      · rw [List.cons_append, readString?, if_pos hPlain, Option.map_none]
        · exact hQuote
        · exact fun _ _ _ _ _ hSame => (hSlash hSame).elim
        · exact fun _ _ hSame => (hSlash hSame).elim
  | case13 pending c rest hQuote hCode hEscape hPlain ih =>
      simp only [Bool.or_eq_true, decide_eq_true_eq, not_or] at hPlain
      have hStep : ∀ rest, readString? pending (c :: rest) =
          (readString? none rest).map fun found => (c :: found.1, found.2) := by
        simp [readString?, hPlain]
      rw [List.cons_append, hStep, ih]
      exact map_cons_append_blank c blank _

theorem no_front_of_append_blank (front : List Char) {text : List Char}
    (hFront : front.any isSpacing = false) (hNot : ∀ rest, text = front ++ rest → False) :
    ∀ rest, text ++ [blank] = front ++ rest → False := by
  intro rest hText
  obtain ⟨more, rfl, hMore⟩ | ⟨more, rfl, -⟩ := List.append_eq_append_iff.mp hText
  · cases more with
    | nil => exact hNot [] (by simp)
    | cons c more =>
        have hLast : blank = c := (List.cons.inj hMore).1
        rw [List.any_append, List.any_cons, ← hLast, hBlank] at hFront
        simp at hFront
  · exact hNot more rfl

theorem next?_blank : next? [blank] = none := by
  rcases isSpacing_cases hBlank with rfl | rfl | rfl | rfl <;> rfl

theorem ends_blank : Ends [blank] := by
  rcases isSpacing_cases hBlank with rfl | rfl | rfl | rfl <;> simp [Ends]

theorem next?_append_blank (text : List Char) :
    next? (text ++ [blank]) =
      (next? text).map fun found => (found.1, found.2 ++ [blank]) := by
  conv => rhs; unfold next?
  split
  case h_1 => exact next?_blank hBlank
  case h_8 rest =>
    rw [List.cons_append, next?, readString?_append_blank hBlank]
    cases readString? none rest <;> rfl
  case h_12 hNone hOpen hClose hBrace hUnbrace hComma hColon hQuote hNull hTrue hFalse =>
    rw [next?, readNumber?_behind (ends_blank hBlank)]
    · cases readNumber? text <;> rfl
    · simp
    · exact no_front_of_append_blank hBlank ['['] rfl hOpen
    · exact no_front_of_append_blank hBlank [']'] rfl hClose
    · exact no_front_of_append_blank hBlank ['\x7b'] rfl hBrace
    · exact no_front_of_append_blank hBlank ['\x7d'] rfl hUnbrace
    · exact no_front_of_append_blank hBlank [','] rfl hComma
    · exact no_front_of_append_blank hBlank [':'] rfl hColon
    · exact no_front_of_append_blank hBlank ['"'] rfl hQuote
    · exact no_front_of_append_blank hBlank ['n', 'u', 'l', 'l'] rfl hNull
    · exact no_front_of_append_blank hBlank ['t', 'r', 'u', 'e'] rfl hTrue
    · exact no_front_of_append_blank hBlank ['f', 'a', 'l', 's', 'e'] rfl hFalse
  all_goals rfl

theorem ofText?_append_blank (text : List Char) :
    Token.ofText? (text ++ [blank]) = Token.ofText? text := by
  fun_induction Token.ofText? text with
  | case1 => rw [List.nil_append, ofText?_spacing hBlank, Token.ofText?]
  | case2 c cs hSpacing ih => rw [List.cons_append, ofText?_spacing hSpacing, ih]
  | case3 c cs hPlain hNext =>
      have hBehind := next?_append_blank hBlank (c :: cs)
      rw [hNext, Option.map_none, List.cons_append] at hBehind
      rw [List.cons_append, ofText?_plain hPlain, hBehind]
  | case4 c cs hPlain token rest hNext ih =>
      have hBehind := next?_append_blank hBlank (c :: cs)
      rw [hNext, Option.map_some, List.cons_append] at hBehind
      rw [List.cons_append, ofText?_plain hPlain, hBehind, ← ih]

theorem Value.ofText?_append_blank (text : List Char) :
    Value.ofText? (text ++ [blank]) = Value.ofText? text := by
  rw [Value.ofText?, Json.ofText?_append_blank hBlank, Value.ofText?]

end Blank

end Json
end RecordFilter

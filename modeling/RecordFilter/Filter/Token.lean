/-
The tokens of a filter text.

A filter text is cut at every delimiter, and each token has to be non-empty.  A run of
opening brackets may begin a token, and a run of closing ones may end it.
-/
import RecordFilter.Filter.GrammarError
import RecordFilter.Filter.Render
import RecordFilter.Text.Split

namespace RecordFilter
namespace Filter

abbrev Token := List Char

def spanText (tokens : List Token) : String := String.ofList (Text.join delimiter tokens)

def leadingRun (token : Token) : Nat :=
  (token.takeWhile fun c => c = leftBracket).length

def trailingRun (token : Token) : Nat :=
  (token.reverse.takeWhile fun c => c = rightBracket).length

/-- The connective of a level after one more connective token: the first one
fixes it, and each further one has to agree. -/
def agree? (fixed : Option Logic) (token : Token) : Option Logic :=
  match Logic.ofWord? token, fixed with
  | some found, none => some found
  | some found, some logic => if found = logic then some logic else none
  | none, _ => none

/-- The position of the first empty token, counted from `start`. -/
def firstEmpty? (start : Nat) : List Token → Option Nat
  | [] => none
  | token :: tokens => if token = [] then some start else firstEmpty? (start + 1) tokens

/-- The tokens of a text.  The empty text is one empty token. -/
def tokenize (input : String) : Except GrammarError (List Token) :=
  let tokens := Text.split delimiter input.toList
  match firstEmpty? 0 tokens with
  | some position => .error (.emptyToken position)
  | none => .ok tokens

theorem firstEmpty?_eq_none_iff (start : Nat) (tokens : List Token) :
    firstEmpty? start tokens = none ↔ ∀ token ∈ tokens, token ≠ [] := by
  induction tokens generalizing start with
  | nil => simp [firstEmpty?]
  | cons token tokens ih =>
      unfold firstEmpty?
      by_cases hEmpty : token = []
      · simp [hEmpty]
      · simp [hEmpty, ih]

theorem firstEmpty?_append (start : Nat) {before : List Token}
    (hBefore : ∀ token ∈ before, token ≠ []) (after : List Token) :
    firstEmpty? start (before ++ [] :: after) = some (start + before.length) := by
  induction before generalizing start with
  | nil => rfl
  | cons token before ih =>
      rw [List.forall_mem_cons] at hBefore
      rw [List.cons_append, firstEmpty?, if_neg hBefore.1, ih (start + 1) hBefore.2,
        List.length_cons, Nat.add_assoc, Nat.add_comm 1]

end Filter
end RecordFilter

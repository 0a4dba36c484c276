/-
The tokens of a JSON text.

A token is a bracket, a separator, a string, or a scalar that stands for itself.
Blanks between tokens are space, tab, line feed and carriage return.
`Token.ofText?` is defined by recursion on the length of the text, since each
token takes at least one character (`next?_length`).
-/
import RecordFilter.Json.Number

namespace RecordFilter
namespace Json

inductive Token where
  | openArray
  | closeArray
  | openObject
  | closeObject
  | comma
  | colon
  | text (s : String)
  | scalar (v : Value)
deriving Inhabited, Repr

/-! ### Strings -/

def hexValue? (c : Char) : Option Nat :=
  if c.isDigit then some (c.toNat - '0'.toNat)
  else if 'a' ≤ c && c ≤ 'f' then some (c.toNat - 'a'.toNat + 10)
  else if 'A' ≤ c && c ≤ 'F' then some (c.toNat - 'A'.toNat + 10)
  else none

def hexCode? (a b c d : Char) : Option Nat :=
  match hexValue? a, hexValue? b, hexValue? c, hexValue? d with
  | some a, some b, some c, some d => some (4096 * a + 256 * b + 16 * c + d)
  | _, _, _, _ => none

def escaped? : Char → Option Char
  | '"' => some '"'
  | '\\' => some '\\'
  | '/' => some '/'
  | 'b' => some '\x08'
  | 'f' => some '\x0c'
  | 'n' => some '\n'
  | 'r' => some '\r'
  | 't' => some '\t'
  | _ => none

def isLeading (code : Nat) : Bool := 0xD800 ≤ code && code ≤ 0xDBFF

def isTrailing (code : Nat) : Bool := 0xDC00 ≤ code && code ≤ 0xDFFF

def pairChar (leading trailing : Nat) : Char :=
  Char.ofNat (1024 * (leading - 0xD800) + (trailing - 0xDC00) + 0x10000)

/-- The characters of a string up to its closing quote, and what follows the
quote.  `pending` is the first half of a surrogate pair whose second half has to
come next; control characters have to be escaped. -/
def readString? (pending : Option Nat) : List Char → Option (List Char × List Char)
  | [] => none
  | '"' :: rest => if pending.isSome then none else some ([], rest)
  | '\\' :: 'u' :: a :: b :: c :: d :: rest =>
      match hexCode? a b c d, pending with
      | none, _ => none
      | some code, some leading =>
          if isTrailing code then
            (readString? none rest).map fun (chars, after) =>
              (pairChar leading code :: chars, after)
          else none
      | some code, none =>
          if isTrailing code then none
          else if isLeading code then readString? (some code) rest
          else
            (readString? none rest).map fun (chars, after) =>
              (Char.ofNat code :: chars, after)
  | '\\' :: letter :: rest =>
      match escaped? letter, pending with
      | some c, none =>
          (readString? none rest).map fun (chars, after) => (c :: chars, after)
      | _, _ => none
  | c :: rest =>
      if c.toNat < 0x20 || c = '\\' || pending.isSome then none
      else (readString? none rest).map fun (chars, after) => (c :: chars, after)
termination_by structural text => text

theorem readString?_length {pending : Option Nat} {text chars rest : List Char}
    (hRead : readString? pending text = some (chars, rest)) :
    rest.length < text.length := by
  fun_induction readString? pending text generalizing chars with
  | case1 => cases hRead
  | case2 => cases hRead
  | case3 pending after hPending =>
      cases hRead
      simp
  | case4 => cases hRead
  | case5 a b c d after code leading hCode hTrailing ih =>
      obtain ⟨found, hFound, hPair⟩ := Option.map_eq_some_iff.1 hRead
      cases hPair
      have hLess := ih hFound
      simp only [List.length_cons]
      omega
  | case6 => cases hRead
  | case7 => cases hRead
  | case8 a b c d after code hCode hTrailing hLeading ih =>
      have hLess := ih hRead
      simp only [List.length_cons]
      omega
  | case9 a b c d after code hCode hTrailing hLeading ih =>
      obtain ⟨found, hFound, hPair⟩ := Option.map_eq_some_iff.1 hRead
      cases hPair
      have hLess := ih hFound
      simp only [List.length_cons]
      omega
  | case10 letter after c hOther hEscaped ih =>
      obtain ⟨found, hFound, hPair⟩ := Option.map_eq_some_iff.1 hRead
      cases hPair
      have hLess := ih hFound
      simp only [List.length_cons]
      omega
  | case11 => cases hRead
  | case12 => cases hRead
  | case13 pending c after hQuote hCode hEscape hPlain ih =>
      obtain ⟨found, hFound, hPair⟩ := Option.map_eq_some_iff.1 hRead
      cases hPair
      have hLess := ih hFound
      simp only [List.length_cons]
      omega

/-! ### Tokens -/

def isSpacing (c : Char) : Bool := c = ' ' || c = '\t' || c = '\n' || c = '\r'

def next? : List Char → Option (Token × List Char)
  | [] => none
  | '[' :: rest => some (.openArray, rest)
  | ']' :: rest => some (.closeArray, rest)
  | '\x7b' :: rest => some (.openObject, rest)
  | '\x7d' :: rest => some (.closeObject, rest)
  | ',' :: rest => some (.comma, rest)
  | ':' :: rest => some (.colon, rest)
  | '"' :: rest =>
      (readString? none rest).map fun (chars, after) => (.text (String.ofList chars), after)
  | 'n' :: 'u' :: 'l' :: 'l' :: rest => some (.scalar .null, rest)
  | 't' :: 'r' :: 'u' :: 'e' :: rest => some (.scalar (.bool true), rest)
  | 'f' :: 'a' :: 'l' :: 's' :: 'e' :: rest => some (.scalar (.bool false), rest)
  | text => (readNumber? text).map fun (value, after) => (.scalar value, after)

theorem next?_length {text rest : List Char} {token : Token}
    (hNext : next? text = some (token, rest)) : rest.length < text.length := by
  unfold next? at hNext
  split at hNext
  case h_1 => cases hNext
  case h_8 =>
    obtain ⟨found, hFound, hPair⟩ := Option.map_eq_some_iff.1 hNext
    cases hPair
    have hLess := readString?_length hFound
    simp only [List.length_cons]
    omega
  case h_12 =>
    obtain ⟨found, hFound, hPair⟩ := Option.map_eq_some_iff.1 hNext
    have hLess := readNumber?_length hFound
    cases hPair
    exact hLess
  all_goals
    cases hNext
    simp only [List.length_cons]
    omega

def Token.ofText? (text : List Char) : Option (List Token) :=
  match text with
  | [] => some []
  | c :: cs =>
      if isSpacing c then Token.ofText? cs
      else
        match _hNext : next? (c :: cs) with
        | none => none
        | some (token, rest) => (Token.ofText? rest).map fun tokens => token :: tokens
termination_by text.length
decreasing_by
  · simp
  · exact next?_length _hNext

end Json
end RecordFilter

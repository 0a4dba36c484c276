/-
The tokens of a printed value.

A value has the same tokens whether it is written compactly or indented: blanks stand
between tokens only.  The one thing that is asked of the value is that the texts of its
floating numbers are read back.
-/
import RecordFilter.Proofs.Json.Numeral

namespace RecordFilter
namespace Json

/-! ### What a value is made of -/

mutual

def Value.floats : Value → List Finite
  | .float x => [x]
  | .array items => itemFloats items
  | .object entries => entryFloats entries
  | _ => []

def itemFloats : List Value → List Finite
  | [] => []
  | item :: items => item.floats ++ itemFloats items

def entryFloats : List (String × Value) → List Finite
  | [] => []
  | (_, value) :: entries => value.floats ++ entryFloats entries

end

mutual

def Value.tokens : Value → List Token
  | .null => [.scalar .null]
  | .bool b => [.scalar (.bool b)]
  | .integer n => [.scalar (.integer n)]
  | .float x => [.scalar (.float x)]
  | .text s => [.text s]
  | .array items => .openArray :: itemTokens items ++ [.closeArray]
  | .object entries => .openObject :: entryTokens entries ++ [.closeObject]

def itemTokens : List Value → List Token
  | [] => []
  | [item] => item.tokens
  | item :: next :: items => item.tokens ++ .comma :: itemTokens (next :: items)

def entryTokens : List (String × Value) → List Token
  | [] => []
  | [(key, value)] => .text key :: .colon :: value.tokens
  | (key, value) :: next :: entries =>
      .text key :: .colon :: value.tokens ++ .comma :: entryTokens (next :: entries)

end

/-! ### One token -/

theorem ofText?_spacing {c : Char} (hSpacing : isSpacing c = true) (cs : List Char) :
    Token.ofText? (c :: cs) = Token.ofText? cs := by
  rw [Token.ofText?, if_pos hSpacing]

theorem ofText?_token {c : Char} {cs rest : List Char} {token : Token} {tokens : List Token}
    (hPlain : isSpacing c = false) (hNext : next? (c :: cs) = some (token, rest))
    (hRest : Token.ofText? rest = some tokens) :
    Token.ofText? (c :: cs) = some (token :: tokens) := by
  have hSpacing : ¬isSpacing c = true := by
    rw [hPlain]
    exact Bool.false_ne_true
  rw [Token.ofText?, if_neg hSpacing]
  split
  · rename_i hNone
    rw [hNone] at hNext
    cases hNext
  · rename_i found after hSome
    rw [hSome] at hNext
    cases hNext
    rw [hRest]
    rfl

theorem ofText?_quote (text : List Char) {rest : List Char} {tokens : List Token}
    (hRest : Token.ofText? rest = some tokens) :
    Token.ofText? (quote text ++ rest) = some (.text (String.ofList text) :: tokens) := by
  have hText : quote text ++ rest = '"' :: (text.flatMap escape ++ '"' :: rest) := by
    simp [quote]
  rw [hText]
  refine ofText?_token rfl ?_ hRest
  rw [next?, readString?_escaped]
  rfl

theorem ofText?_key (key : String) {rest : List Char} {tokens : List Token}
    (hRest : Token.ofText? rest = some tokens) :
    Token.ofText? (quote key.toList ++ ':' :: rest) = some (.text key :: .colon :: tokens) := by
  have hColon : Token.ofText? (':' :: rest) = some (.colon :: tokens) :=
    ofText?_token rfl rfl hRest
  rw [ofText?_quote key.toList hColon, String.ofList_toList]

theorem next?_number {c : Char} (hNumber : isNumberChar c = true) (cs : List Char) :
    next? (c :: cs) =
      (readNumber? (c :: cs)).map fun (value, after) => (.scalar value, after) := by
  unfold next?
  split
  case h_1 hNone => cases hNone
  case h_12 => rfl
  all_goals
    rename_i hHead
    cases hHead
    exact absurd hNumber (by decide)

theorem isSpacing_number {c : Char} (hNumber : isNumberChar c = true) :
    isSpacing c = false := by
  rw [Bool.eq_false_iff]
  intro hSpacing
  simp only [isSpacing, Bool.or_eq_true, decide_eq_true_eq] at hSpacing
  rcases hSpacing with ((rfl | rfl) | rfl) | rfl <;> exact absurd hNumber (by decide)

/-- A number that is read back is the token of its text, before whatever ends it. -/
theorem ofText?_number {v : Value} (hNumber : v.initial = '0')
    (hReads : readNumber? v.write = some (v, [])) {rest : List Char} {tokens : List Token}
    (hEnds : Ends rest) (hRest : Token.ofText? rest = some tokens) :
    Token.ofText? (v.write ++ rest) = some (.scalar v :: tokens) := by
  have hChars := Value.isNumberChar_of_mem_write hNumber
  have hBehind := readNumber?_behind hEnds v.write
  rw [hReads] at hBehind
  cases hWrite : v.write with
  | nil => exact absurd hWrite v.write_ne_nil
  | cons c cs =>
      rw [hWrite] at hChars hBehind
      have hFirst := hChars c List.mem_cons_self
      refine ofText?_token (isSpacing_number hFirst) ?_ hRest
      rw [next?_number hFirst]
      exact congrArg (Option.map fun (value, after) => (Token.scalar value, after)) hBehind

/-! ### Compact text -/

theorem ends_comma (rest : List Char) : Ends (',' :: rest) := by
  simp [Ends]

theorem ends_closeArray (rest : List Char) : Ends (']' :: rest) := by
  simp [Ends]

theorem ends_closeObject (rest : List Char) : Ends ('\x7d' :: rest) := by
  simp [Ends]

theorem ends_newLine (level : Nat) (rest : List Char) : Ends (newLine level ++ rest) := by
  simp [Ends, newLine]

mutual

theorem ofText?_write : ∀ (v : Value) {rest : List Char} {tokens : List Token},
    (∀ x ∈ v.floats, x.ReadsBack) → Ends rest → Token.ofText? rest = some tokens →
      Token.ofText? (v.write ++ rest) = some (v.tokens ++ tokens)
  | .null, _, _, _, _, hRest => ofText?_token rfl rfl hRest
  | .bool true, _, _, _, _, hRest => ofText?_token rfl rfl hRest
  | .bool false, _, _, _, _, hRest => ofText?_token rfl rfl hRest
  | .integer n, _, _, _, hEnds, hRest =>
      ofText?_number rfl (readNumber?_writeInteger n) hEnds hRest
  | .float x, _, _, hReads, hEnds, hRest =>
      ofText?_number rfl (hReads x (by simp [Value.floats])) hEnds hRest
  | .text s, _, _, _, _, hRest => by
      rw [Value.write, ofText?_quote s.toList hRest, String.ofList_toList]
      rfl
  | .array items, rest, tokens, hReads, _, hRest => by
      have hClose : Token.ofText? (']' :: rest) = some (.closeArray :: tokens) :=
        ofText?_token rfl rfl hRest
      have hItems := ofText?_writeItems items hReads hClose
      simp only [Value.write, Value.tokens, List.cons_append, List.append_assoc,
        List.nil_append]
      exact ofText?_token rfl rfl hItems
  | .object entries, rest, tokens, hReads, _, hRest => by
      have hClose : Token.ofText? ('\x7d' :: rest) = some (.closeObject :: tokens) :=
        ofText?_token rfl rfl hRest
      have hEntries := ofText?_writeEntries entries hReads hClose
      simp only [Value.write, Value.tokens, List.cons_append, List.append_assoc,
        List.nil_append]
      exact ofText?_token rfl rfl hEntries

theorem ofText?_writeItems : ∀ (items : List Value) {rest : List Char} {tokens : List Token},
    (∀ x ∈ itemFloats items, x.ReadsBack) → Token.ofText? (']' :: rest) = some tokens →
      Token.ofText? (writeItems items ++ ']' :: rest) = some (itemTokens items ++ tokens)
  | [], _, _, _, hClose => hClose
  | [item], rest, _, hReads, hClose => by
      rw [itemFloats, List.forall_mem_append] at hReads
      exact ofText?_write item hReads.1 (ends_closeArray rest) hClose
  | item :: next :: items, rest, tokens, hReads, hClose => by
      rw [itemFloats, List.forall_mem_append] at hReads
      have hMore := ofText?_writeItems (next :: items) hReads.2 hClose
      have hComma : Token.ofText? (',' :: (writeItems (next :: items) ++ ']' :: rest)) =
          some (.comma :: (itemTokens (next :: items) ++ tokens)) :=
        ofText?_token rfl rfl hMore
      have hItem := ofText?_write item hReads.1 (ends_comma _) hComma
      simpa only [writeItems, itemTokens, List.append_assoc, List.cons_append] using hItem

theorem ofText?_writeEntries : ∀ (entries : List (String × Value)) {rest : List Char}
    {tokens : List Token}, (∀ x ∈ entryFloats entries, x.ReadsBack) →
      Token.ofText? ('\x7d' :: rest) = some tokens →
      Token.ofText? (writeEntries entries ++ '\x7d' :: rest) =
        some (entryTokens entries ++ tokens)
  | [], _, _, _, hClose => hClose
  | [(key, value)], rest, tokens, hReads, hClose => by
      rw [entryFloats, List.forall_mem_append] at hReads
      have hKey := ofText?_key key
        (ofText?_write value hReads.1 (ends_closeObject rest) hClose)
      simpa only [writeEntries, entryTokens, List.append_assoc, List.cons_append] using hKey
  | (key, value) :: next :: entries, rest, tokens, hReads, hClose => by
      rw [entryFloats, List.forall_mem_append] at hReads
      have hMore := ofText?_writeEntries (next :: entries) hReads.2 hClose
      have hComma : Token.ofText? (',' :: (writeEntries (next :: entries) ++ '\x7d' :: rest)) =
          some (.comma :: (entryTokens (next :: entries) ++ tokens)) :=
        ofText?_token rfl rfl hMore
      have hKey := ofText?_key key (ofText?_write value hReads.1 (ends_comma _) hComma)
      simpa only [writeEntries, entryTokens, List.append_assoc, List.cons_append] using hKey

end

/-! ### Indented text -/

theorem ofText?_newLine (level : Nat) (rest : List Char) :
    Token.ofText? (newLine level ++ rest) = Token.ofText? rest := by
  have hBlanks : ∀ n : Nat,
      Token.ofText? (List.replicate n ' ' ++ rest) = Token.ofText? rest := by
    intro n
    induction n with
    | zero => rfl
    | succ n ih =>
        rw [List.replicate_succ, List.cons_append, ofText?_spacing rfl, ih]
  rw [newLine, List.cons_append, ofText?_spacing rfl, hBlanks]

mutual

theorem ofText?_writeIndented : ∀ (v : Value) (level : Nat) {rest : List Char}
    {tokens : List Token}, (∀ x ∈ v.floats, x.ReadsBack) → Ends rest →
      Token.ofText? rest = some tokens →
      Token.ofText? (v.writeIndented level ++ rest) = some (v.tokens ++ tokens)
  | .null, level, _, _, hReads, hEnds, hRest => ofText?_write .null hReads hEnds hRest
  | .bool b, level, _, _, hReads, hEnds, hRest => ofText?_write (.bool b) hReads hEnds hRest
  | .integer n, level, _, _, hReads, hEnds, hRest =>
      ofText?_write (.integer n) hReads hEnds hRest
  | .float x, level, _, _, hReads, hEnds, hRest => ofText?_write (.float x) hReads hEnds hRest
  | .text s, level, _, _, hReads, hEnds, hRest => ofText?_write (.text s) hReads hEnds hRest
  | .array [], level, _, _, hReads, hEnds, hRest => ofText?_write (.array []) hReads hEnds hRest
  | .object [], level, _, _, hReads, hEnds, hRest =>
      ofText?_write (.object []) hReads hEnds hRest
  | .array (item :: items), level, rest, tokens, hReads, _, hRest => by
      have hClose : Token.ofText? (']' :: rest) = some (.closeArray :: tokens) :=
        ofText?_token rfl rfl hRest
      have hItems := ofText?_indentItems (item :: items) (level + 1) level hReads hClose
      simp only [Value.writeIndented, Value.tokens, List.cons_append, List.append_assoc,
        List.nil_append]
      exact ofText?_token rfl rfl hItems
  | .object (entry :: entries), level, rest, tokens, hReads, _, hRest => by
      have hClose : Token.ofText? ('\x7d' :: rest) = some (.closeObject :: tokens) :=
        ofText?_token rfl rfl hRest
      have hEntries := ofText?_indentEntries (entry :: entries) (level + 1) level hReads hClose
      simp only [Value.writeIndented, Value.tokens, List.cons_append, List.append_assoc,
        List.nil_append]
      exact ofText?_token rfl rfl hEntries

theorem ofText?_indentItems : ∀ (items : List Value) (level outer : Nat) {rest : List Char}
    {tokens : List Token}, (∀ x ∈ itemFloats items, x.ReadsBack) →
      Token.ofText? (']' :: rest) = some tokens →
      Token.ofText? (indentItems level items ++ (newLine outer ++ ']' :: rest)) =
        some (itemTokens items ++ tokens)
  | [], level, outer, rest, tokens, _, hClose => by
      rw [indentItems, List.nil_append, ofText?_newLine, hClose]
      rfl
  | [item], level, outer, rest, tokens, hReads, hClose => by
      rw [itemFloats, List.forall_mem_append] at hReads
      have hEnd : Token.ofText? (newLine outer ++ ']' :: rest) = some tokens := by
        rw [ofText?_newLine, hClose]
      rw [indentItems, List.append_assoc, ofText?_newLine]
      exact ofText?_writeIndented item level hReads.1 (ends_newLine outer _) hEnd
  | item :: next :: items, level, outer, rest, tokens, hReads, hClose => by
      rw [itemFloats, List.forall_mem_append] at hReads
      have hMore := ofText?_indentItems (next :: items) level outer hReads.2 hClose
      have hComma : Token.ofText? (',' ::
          (indentItems level (next :: items) ++ (newLine outer ++ ']' :: rest))) =
            some (.comma :: (itemTokens (next :: items) ++ tokens)) :=
        ofText?_token rfl rfl hMore
      have hItem := ofText?_writeIndented item level hReads.1 (ends_comma _) hComma
      simp only [indentItems, List.append_assoc, List.cons_append, ofText?_newLine]
      rw [hItem, itemTokens, List.append_assoc, List.cons_append]

theorem ofText?_indentEntries : ∀ (entries : List (String × Value)) (level outer : Nat)
    {rest : List Char} {tokens : List Token}, (∀ x ∈ entryFloats entries, x.ReadsBack) →
      Token.ofText? ('\x7d' :: rest) = some tokens →
      Token.ofText? (indentEntries level entries ++ (newLine outer ++ '\x7d' :: rest)) =
        some (entryTokens entries ++ tokens)
  | [], level, outer, rest, tokens, _, hClose => by
      rw [indentEntries, List.nil_append, ofText?_newLine, hClose]
      rfl
  | [(key, value)], level, outer, rest, tokens, hReads, hClose => by
      rw [entryFloats, List.forall_mem_append] at hReads
      have hEnd : Token.ofText? (newLine outer ++ '\x7d' :: rest) = some tokens := by
        rw [ofText?_newLine, hClose]
      have hValue := ofText?_writeIndented value level hReads.1 (ends_newLine outer _) hEnd
      simp only [indentEntries, List.append_assoc, List.cons_append, ofText?_newLine]
      exact ofText?_key key ((ofText?_spacing rfl _).trans hValue)
  | (key, value) :: next :: entries, level, outer, rest, tokens, hReads, hClose => by
      rw [entryFloats, List.forall_mem_append] at hReads
      have hMore := ofText?_indentEntries (next :: entries) level outer hReads.2 hClose
      have hComma : Token.ofText? (',' ::
          (indentEntries level (next :: entries) ++ (newLine outer ++ '\x7d' :: rest))) =
            some (.comma :: (entryTokens (next :: entries) ++ tokens)) :=
        ofText?_token rfl rfl hMore
      have hValue := ofText?_writeIndented value level hReads.1 (ends_comma _) hComma
      simp only [indentEntries, entryTokens, List.append_assoc, List.cons_append,
        ofText?_newLine]
      exact ofText?_key key ((ofText?_spacing rfl _).trans hValue)

end

end Json
end RecordFilter

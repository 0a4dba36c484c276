/-
Values read from their own texts.

What is read from the text of a value is the value with the entries of each object in
their order.  That holds for every value whose arrays and objects are not nested deeper
than the reader allows.
-/
import RecordFilter.Proofs.Json.Tokens

namespace RecordFilter
namespace Json

/-! ### Arrangement and depth -/

mutual

/-- A value with the entries of each object sorted, of several with one key the last. -/
def Value.arranged : Value → Value
  | .null => .null
  | .bool b => .bool b
  | .integer n => .integer n
  | .float x => .float x
  | .text s => .text s
  | .array items => .array (arrangedItems items)
  | .object entries => .ofEntries (arrangedEntries entries)

def arrangedItems : List Value → List Value
  | [] => []
  | item :: items => item.arranged :: arrangedItems items

def arrangedEntries : List (String × Value) → List (String × Value)
  | [] => []
  | (key, value) :: entries => (key, value.arranged) :: arrangedEntries entries

end

mutual

def Value.depth : Value → Nat
  | .array items => itemDepth items + 1
  | .object entries => entryDepth entries + 1
  | _ => 0

def itemDepth : List Value → Nat
  | [] => 0
  | item :: items => max item.depth (itemDepth items)

def entryDepth : List (String × Value) → Nat
  | [] => 0
  | (_, value) :: entries => max value.depth (entryDepth entries)

end

/-! ### The reader on the tokens of a value -/

namespace Place

theorem run?_step {place next : Place} {token : Token} (hStep : place.step? token = some next)
    (tokens : List Token) : place.run? (token :: tokens) = next.run? tokens := by
  rw [run?, hStep]

theorem run?_firstItem (frames : List Frame) (v : Value) (tokens : List Token) :
    (firstItem frames).run? (v.tokens ++ tokens) =
      (value (.items [] :: frames)).run? (v.tokens ++ tokens) := by
  cases v <;> rfl

theorem itemTokens_cons (item : Value) (items : List Value) :
    ∃ more, itemTokens (item :: items) = item.tokens ++ more := by
  cases items with
  | nil => exact ⟨[], (List.append_nil _).symm⟩
  | cons next items => exact ⟨_, rfl⟩

theorem run?_firstKey (frames : List Frame) (entry : String × Value)
    (entries : List (String × Value)) (tokens : List Token) :
    (firstKey frames).run? (entryTokens (entry :: entries) ++ tokens) =
      (nextKey frames []).run? (entryTokens (entry :: entries) ++ tokens) := by
  cases entries <;> rfl

theorem step?_openArray {frames : List Frame} (hRoom : frames.length < nestingLimit) :
    (value frames).step? .openArray = some (firstItem frames) :=
  if_pos hRoom

theorem step?_openObject {frames : List Frame} (hRoom : frames.length < nestingLimit) :
    (value frames).step? .openObject = some (firstKey frames) :=
  if_pos hRoom

mutual

theorem run?_tokens : ∀ (v : Value) (frames : List Frame) (tokens : List Token),
    frames.length + v.depth ≤ nestingLimit →
      (value frames).run? (v.tokens ++ tokens) = (afterValue v.arranged frames).run? tokens
  | .null, _, _, _ => rfl
  | .bool _, _, _, _ => rfl
  | .integer _, _, _, _ => rfl
  | .float _, _, _, _ => rfl
  | .text _, _, _, _ => rfl
  | .array items, frames, tokens, hDepth => by
      rw [Value.depth] at hDepth
      simp only [Value.tokens, List.cons_append, List.append_assoc, List.nil_append]
      rw [run?_step (step?_openArray (by omega))]
      cases items with
      | nil => rfl
      | cons item items =>
          obtain ⟨more, hMore⟩ := itemTokens_cons item items
          have hItems := run?_itemTokens (item :: items) (List.cons_ne_nil item items) frames []
            tokens (by omega)
          rw [hMore, List.append_assoc] at hItems ⊢
          rw [run?_firstItem, hItems]
          rfl
  | .object entries, frames, tokens, hDepth => by
      rw [Value.depth] at hDepth
      simp only [Value.tokens, List.cons_append, List.append_assoc, List.nil_append]
      rw [run?_step (step?_openObject (by omega))]
      cases entries with
      | nil => rfl
      | cons entry entries =>
          have hEntries := run?_entryTokens (entry :: entries) (List.cons_ne_nil entry entries)
            frames [] tokens (by omega)
          rw [run?_firstKey, hEntries]
          rfl

theorem run?_itemTokens : ∀ (items : List Value), items ≠ [] → ∀ (frames : List Frame)
    (before : List Value) (tokens : List Token),
    frames.length + 1 + itemDepth items ≤ nestingLimit →
      (value (.items before :: frames)).run? (itemTokens items ++ .closeArray :: tokens) =
        (afterValue (.array (before.reverse ++ arrangedItems items)) frames).run? tokens
  -- `before` holds the items in front, the last one first
  | [], hSome, _, _, _, _ => absurd rfl hSome
  | [item], _, frames, before, tokens, hDepth => by
      rw [itemDepth, itemDepth] at hDepth
      have hItem := run?_tokens item (.items before :: frames)
        (.closeArray :: tokens) (by rw [List.length_cons]; omega)
      have hReverse : (item.arranged :: before).reverse = before.reverse ++ [item.arranged] :=
        List.reverse_cons
      rw [itemTokens, hItem, arrangedItems, arrangedItems, ← hReverse]
      rfl
  | item :: next :: items, _, frames, before, tokens, hDepth => by
      rw [itemDepth] at hDepth
      have hItem := run?_tokens item (.items before :: frames)
        (.comma :: (itemTokens (next :: items) ++ .closeArray :: tokens))
        (by rw [List.length_cons]; omega)
      have hMore := run?_itemTokens (next :: items) (List.cons_ne_nil next items) frames
        (item.arranged :: before) tokens (by omega)
      have hReverse : (item.arranged :: before).reverse ++ arrangedItems (next :: items) =
          before.reverse ++ arrangedItems (item :: next :: items) := by
        rw [List.reverse_cons, List.append_assoc]
        rfl
      rw [hReverse] at hMore
      rw [itemTokens, List.append_assoc, List.cons_append, hItem, ← hMore]
      rfl

theorem run?_entryTokens : ∀ (entries : List (String × Value)), entries ≠ [] →
    ∀ (frames : List Frame) (before : List (String × Value)) (tokens : List Token),
    frames.length + 1 + entryDepth entries ≤ nestingLimit →
      (nextKey frames before).run? (entryTokens entries ++ .closeObject :: tokens) =
        (afterValue (.ofEntries (before.reverse ++ arrangedEntries entries)) frames).run? tokens
  | [], hSome, _, _, _, _ => absurd rfl hSome
  | [(key, v)], _, frames, before, tokens, hDepth => by
      rw [entryDepth, entryDepth] at hDepth
      have hValue := run?_tokens v (.entries before key :: frames)
        (.closeObject :: tokens) (by rw [List.length_cons]; omega)
      have hReverse : ((key, v.arranged) :: before).reverse =
          before.reverse ++ [(key, v.arranged)] :=
        List.reverse_cons
      rw [entryTokens, arrangedEntries, arrangedEntries, ← hReverse]
      exact hValue
  | (key, v) :: next :: entries, _, frames, before, tokens, hDepth => by
      rw [entryDepth] at hDepth
      have hValue := run?_tokens v (.entries before key :: frames)
        (.comma :: (entryTokens (next :: entries) ++ .closeObject :: tokens))
        (by rw [List.length_cons]; omega)
      have hMore := run?_entryTokens (next :: entries) (List.cons_ne_nil next entries) frames
        ((key, v.arranged) :: before) tokens (by omega)
      have hReverse : ((key, v.arranged) :: before).reverse ++ arrangedEntries (next :: entries) =
          before.reverse ++ arrangedEntries ((key, v) :: next :: entries) := by
        rw [List.reverse_cons, List.append_assoc]
        rfl
      rw [hReverse] at hMore
      rw [← hMore]
      simp only [entryTokens, List.append_assoc, List.cons_append]
      exact hValue

end

end Place

/-! ### The reader on the text of a value -/

namespace Value

variable {v : Value} (hDepth : v.depth ≤ nestingLimit)
include hDepth

theorem ofTokens?_tokens : ofTokens? v.tokens = some v.arranged := by
  have hDepthInside : ([] : List Frame).length + v.depth ≤ nestingLimit := by
    rw [List.length_nil, Nat.zero_add]
    exact hDepth
  have hRun := Place.run?_tokens v [] [] hDepthInside
  rw [List.append_nil] at hRun
  rw [ofTokens?, hRun]
  rfl

variable (hReads : ∀ x ∈ v.floats, x.ReadsBack)
include hReads

theorem ofText?_write : ofText? v.write = some v.arranged := by
  have hTokens := Json.ofText?_write v hReads ends_nil Token.ofText?.eq_1
  rw [List.append_nil, List.append_nil] at hTokens
  rw [ofText?, hTokens]
  exact ofTokens?_tokens hDepth

theorem ofText?_writeIndented (level : Nat) : ofText? (v.writeIndented level) = some v.arranged := by
  have hTokens := Json.ofText?_writeIndented v level hReads ends_nil Token.ofText?.eq_1
  rw [List.append_nil, List.append_nil] at hTokens
  rw [ofText?, hTokens]
  exact ofTokens?_tokens hDepth

end Value

end Json
end RecordFilter

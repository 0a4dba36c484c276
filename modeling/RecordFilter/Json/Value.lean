/-
JSON values.

Whole numbers and floating numbers are kept apart: `1` and `1.0` are different
values.  The entries of an object read from text are sorted by key and each key
occurs once; `insertEntry` keeps both properties, as `SortedEntries` states.
-/
import RecordFilter.Text.Order

namespace RecordFilter
namespace Json

/-! ### Numbers -/

/-- An integer that fits 64 bits, signed or unsigned. -/
structure Whole where
  value : Int
  low_le : -0x8000000000000000 ≤ value
  lt_high : value < 0x10000000000000000
deriving DecidableEq, Repr

def Whole.ofInt? (n : Int) : Option Whole :=
  if h : -0x8000000000000000 ≤ n ∧ n < 0x10000000000000000 then some ⟨n, h.1, h.2⟩ else none

def Whole.ofInt64 (n : Int64) : Whole where
  value := n.toInt
  low_le := n.le_toInt
  lt_high := Int.lt_trans n.toInt_lt (by decide)

/-- A floating number other than the infinities and NaN. -/
structure Finite where
  value : Float
  isFinite : value.isFinite = true
deriving DecidableEq, Repr

def Finite.ofFloat? (x : Float) : Option Finite :=
  if h : x.isFinite = true then some ⟨x, h⟩ else none

instance : Inhabited Whole := ⟨⟨0, by decide, by decide⟩⟩

/-! ### Values -/

inductive Value where
  | null
  | bool (b : Bool)
  | integer (n : Whole)
  | float (x : Finite)
  | text (s : String)
  | array (items : List Value)
  | object (entries : List (String × Value))
deriving Inhabited, Repr

/-! ### Objects -/

def keyOrder (left right : String) : Ordering :=
  Text.order left.toList right.toList

/-- Puts an entry at its place among entries sorted by key; an entry with the
same key is replaced. -/
def insertEntry (key : String) (value : Value) :
    List (String × Value) → List (String × Value)
  | [] => [(key, value)]
  | (other, held) :: entries =>
      match keyOrder key other with
      | .lt => (key, value) :: (other, held) :: entries
      | .eq => (key, value) :: entries
      | .gt => (other, held) :: insertEntry key value entries

/-- The object with the given entries; of several with one key the last counts. -/
def Value.ofEntries (entries : List (String × Value)) : Value :=
  .object (entries.foldl (fun sorted entry => insertEntry entry.1 entry.2 sorted) [])

def lookup? (key : String) : List (String × Value) → Option Value
  | [] => none
  | (other, value) :: entries => if key = other then some value else lookup? key entries

def SortedEntries : List (String × Value) → Prop
  | [] => True
  | [_] => True
  | first :: second :: entries =>
      keyOrder first.1 second.1 = .lt ∧ SortedEntries (second :: entries)

theorem lookup?_insertEntry (key sought : String) (value : Value)
    (entries : List (String × Value)) :
    lookup? sought (insertEntry key value entries) =
      if sought = key then some value else lookup? sought entries := by
  induction entries with
  | nil => simp [insertEntry, lookup?]
  | cons entry entries ih =>
      obtain ⟨other, held⟩ := entry
      unfold insertEntry
      cases hOrder : keyOrder key other with
      | lt => simp [lookup?]
      | eq =>
          have hKey : key = other := by
            have hChars := (Text.order_eq_iff key.toList other.toList).1 hOrder
            exact String.toList_inj.1 hChars
          subst hKey
          by_cases hSought : sought = key <;> simp [lookup?, hSought]
      | gt =>
          have hKey : key ≠ other := by
            intro hEq
            subst hEq
            have hTie := (Text.order_eq_iff key.toList key.toList).2 rfl
            rw [keyOrder, hTie] at hOrder
            cases hOrder
          by_cases hOther : sought = other
          · subst hOther
            simp [lookup?, Ne.symm hKey]
          · simp [lookup?, hOther, ih]

/-! ### Kinds -/

def Value.kind : Value → String
  | .null => "null"
  | .bool _ => "a boolean"
  | .integer _ => "a number"
  | .float _ => "a number"
  | .text _ => "a string"
  | .array _ => "an array"
  | .object _ => "an object"

end Json
end RecordFilter

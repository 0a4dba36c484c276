/-
JSON values from their tokens.

The tokens are taken one by one.  A `Place` says what may come next and holds
the arrays and objects that are still open, innermost first; at most 127 of them
may be open at once.  A text is the text of a value when its tokens end with
nothing left open.
-/
import RecordFilter.Json.Token

namespace RecordFilter
namespace Json

inductive Frame where
  | items (before : List Value)
  /-- An object, with its entries so far, last first, and the key of the value. -/
  | entries (before : List (String × Value)) (key : String)
deriving Inhabited

/-- What may come next, and what is open around it. -/
inductive Place where
  | value (open_ : List Frame)
  | firstItem (open_ : List Frame)
  | afterItem (open_ : List Frame) (items : List Value)
  | firstKey (open_ : List Frame)
  | nextKey (open_ : List Frame) (entries : List (String × Value))
  | afterKey (open_ : List Frame) (entries : List (String × Value)) (key : String)
  | afterEntry (open_ : List Frame) (entries : List (String × Value))
  | done (v : Value)
deriving Inhabited

def nestingLimit : Nat := 127

def Place.afterValue (v : Value) : List Frame → Place
  | [] => .done v
  | .items before :: frames => .afterItem frames (v :: before)
  | .entries before key :: frames => .afterEntry frames ((key, v) :: before)

def Place.begin? (frames : List Frame) : Token → Option Place
  | .scalar v => some (.afterValue v frames)
  | .text s => some (.afterValue (.text s) frames)
  | .openArray => if frames.length < nestingLimit then some (.firstItem frames) else none
  | .openObject => if frames.length < nestingLimit then some (.firstKey frames) else none
  | _ => none

def Place.step? : Place → Token → Option Place
  | .value frames, token => Place.begin? frames token
  | .firstItem frames, .closeArray => some (.afterValue (.array []) frames)
  | .firstItem frames, token => Place.begin? (.items [] :: frames) token
  | .afterItem frames items, .comma => some (.value (.items items :: frames))
  | .afterItem frames items, .closeArray =>
      some (.afterValue (.array items.reverse) frames)
  | .firstKey frames, .closeObject => some (.afterValue (.object []) frames)
  | .firstKey frames, .text key => some (.afterKey frames [] key)
  | .nextKey frames entries, .text key => some (.afterKey frames entries key)
  | .afterKey frames entries key, .colon => some (.value (.entries entries key :: frames))
  | .afterEntry frames entries, .comma => some (.nextKey frames entries)
  | .afterEntry frames entries, .closeObject =>
      some (.afterValue (.ofEntries entries.reverse) frames)
  | _, _ => none

def Place.run? : Place → List Token → Option Place
  | place, [] => some place
  | place, token :: tokens =>
      match place.step? token with
      | none => none
      | some next => next.run? tokens

def Value.ofTokens? (tokens : List Token) : Option Value :=
  match (Place.value []).run? tokens with
  | some (.done v) => some v
  | _ => none

def Value.ofText? (text : List Char) : Option Value :=
  match Token.ofText? text with
  | none => none
  | some tokens => Value.ofTokens? tokens

def Value.parse? (text : String) : Option Value := Value.ofText? text.toList

end Json
end RecordFilter

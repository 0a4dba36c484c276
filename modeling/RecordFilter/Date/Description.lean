/-
Date patterns from text.

Outside brackets every character stands for itself, and a doubled opening
bracket for one.  Brackets hold the name of a component, its modifiers and, for
`optional` and `first`, nested parts in brackets of their own.  A text is first
cut into pieces; a `Draft` is what brackets hold before its name is looked up.
A nested part that cannot be read ends the nested parts.  The number of pieces
bounds the depth of the reading.
-/
import RecordFilter.Date.ComponentTable
import RecordFilter.Text.Blank
import RecordFilter.Text.Bytes

namespace RecordFilter
namespace Date

open Text (Mark)

/-! ### Pieces -/

/-- A piece of a pattern text: a bracket, a run of blanks, or a run of other
characters. -/
inductive Piece where
  | opening (index : Nat)
  | closing (index : Nat)
  | blank (index : Nat) (text : List Char)
  | word (index : Nat) (text : List Char)
deriving DecidableEq, Repr, Inhabited

/-- Puts a character in front of the pieces behind it.  Blanks join blanks and
other characters join a word, but a backslash begins a word. -/
def addPiece (mark : Mark) (pieces : List Piece) : List Piece :=
  if mark.char = '[' then .opening mark.index :: pieces
  else if mark.char = ']' then .closing mark.index :: pieces
  else if Text.isAsciiBlank mark.char then
    match pieces with
    | .blank _ text :: rest => .blank mark.index (mark.char :: text) :: rest
    | rest => .blank mark.index [mark.char] :: rest
  else
    match pieces with
    | .word _ ('\\' :: _) :: _ => .word mark.index [mark.char] :: pieces
    | .word _ text :: rest => .word mark.index (mark.char :: text) :: rest
    | rest => .word mark.index [mark.char] :: rest

def cut (text : String) : List Piece :=
  (Text.locate 0 text.toList).foldr addPiece []

/-! ### Drafts -/

/-- An item whose names are not looked up yet. -/
inductive Draft where
  | literal (text : List Char)
  | bracket (opening closing : Nat) (name : Word) (modifiers : List Modifier)
      (parts : List (List Draft))
deriving Inhabited

/-- What was read and what follows; a fault also says where reading stopped. -/
abbrev Outcome (α : Type) := Except (PatternFault × List Piece) (α × List Piece)

def modifierOfWord (index : Nat) (text : List Char) : Except PatternFault Modifier :=
  let key := text.takeWhile (· != ':')
  let width := (Text.bytes key).length
  match text.dropWhile (· != ':') with
  | [] => .error (.badModifier (String.ofList text) index)
  | _ :: value =>
      if key = [] then .error (.badModifier "" index)
      else if value = [] then .error (.badModifier "" (index + width))
      else .ok ⟨⟨String.ofList key, index⟩, ⟨String.ofList value, index + width + 1⟩⟩

def readModifiers : List Piece → Outcome (List Modifier × Bool)
  | .blank _ _ :: .word index text :: rest =>
      match modifierOfWord index text with
      | .error fault => .error (fault, rest)
      | .ok modifier =>
          match readModifiers rest with
          | .error stop => .error stop
          | .ok ((modifiers, blank), after) => .ok ((modifier :: modifiers, blank), after)
  | .blank _ _ :: rest => .ok (([], true), rest)
  | rest => .ok (([], false), rest)

def dropBlank : List Piece → List Piece
  | .blank _ _ :: rest => rest
  | rest => rest

def prepend (draft : Draft) : Outcome (List Draft) → Outcome (List Draft)
  | .error stop => .error stop
  | .ok (drafts, rest) => .ok (draft :: drafts, rest)

mutual

/-- What the bracket opened at `opening` holds, up to its closing bracket. -/
def readBracket (opening : Nat) : Nat → List Piece → Outcome Draft
  | 0, pieces => .error (.unclosedBracket opening, pieces)
  | depth + 1, pieces =>
      match dropBlank pieces with
      | .word index name :: afterName =>
          match readModifiers afterName with
          | .error stop => .error stop
          | .ok ((modifiers, blank), afterModifiers) =>
              let (parts, afterParts) := readParts depth afterModifiers
              match parts, blank, afterModifiers with
              | _ :: _, false, .opening part :: _ =>
                  .error (.blankExpected part, afterParts)
              | _, _, _ =>
                  match afterParts with
                  | .closing closing :: rest =>
                      .ok (.bracket opening closing ⟨String.ofList name, index⟩ modifiers parts,
                        rest)
                  | _ => .error (.unclosedBracket opening, afterParts)
      | other =>
          .error (.missingName (if other.length < pieces.length then opening + 1 else opening),
            other)

def readParts : Nat → List Piece → List (List Draft) × List Piece
  | depth + 1, .opening _ :: pieces =>
      match readInner depth pieces with
      | .error (_, rest) => ([], rest)
      | .ok (drafts, .closing _ :: rest) =>
          let (parts, after) := readParts depth (dropBlank rest)
          (drafts :: parts, after)
      | .ok (_, rest) => ([], rest)
  | _, pieces => ([], pieces)

def readInner : Nat → List Piece → Outcome (List Draft)
  | depth + 1, piece :: pieces =>
      match piece, pieces with
      | .closing _, _ => .ok ([], piece :: pieces)
      | .opening _, .opening _ :: rest => prepend (.literal ['[']) (readInner depth rest)
      | .opening index, _ =>
          match readBracket index depth pieces with
          | .error stop => .error stop
          | .ok (draft, rest) => prepend draft (readInner depth rest)
      | .blank _ text, _ => prepend (.literal text) (readInner depth pieces)
      | .word _ text, _ => prepend (.literal text) (readInner depth pieces)
  | _, pieces => .ok ([], pieces)

end

/-! ### Items -/

inductive Form where
  | component (component : Component)
  | optional
  | first

def Form.of (opening closing : Nat) (name : Word) (modifiers : List Modifier) (parts : Nat) :
    Except PatternFault Form :=
  if lower name.text = "optional" then
    match applyModifiers [writtenSetting] {} modifiers with
    | .error fault => .error fault
    | .ok options =>
        if parts = 0 then .error (.partExpected closing)
        else if 1 < parts then .error (.severalParts opening)
        else if options.written then .ok .optional
        else .error (.unwrittenPart opening)
  else if lower name.text = "first" then
    match applyModifiers [] {} modifiers with
    | .error fault => .error fault
    | .ok _ => if parts = 0 then .error (.partExpected closing) else .ok .first
  else if 0 < parts then .error (.partsUnsupported opening)
  else
    match Component.named name modifiers with
    | .error fault => .error fault
    | .ok made => .ok (.component made)

def Form.item : Form → List Pattern → Item
  | .component made, _ => .component made
  | .optional, parts => .optional parts.flatten
  | .first, parts => .first parts

mutual

/-- The item that a draft stands for.  The bracket is looked up before its nested
parts. -/
def Draft.item : Draft → Except PatternFault Item
  | .literal text => .ok (.literal (Text.bytes text))
  | .bracket opening closing name modifiers parts =>
      match Form.of opening closing name modifiers parts.length with
      | .error fault => .error fault
      | .ok form =>
          match partItems parts with
          | .error fault => .error fault
          | .ok patterns => .ok (form.item patterns)

def draftItems : List Draft → Except PatternFault Pattern
  | [] => .ok []
  | draft :: drafts =>
      match draft.item with
      | .error fault => .error fault
      | .ok item =>
          match draftItems drafts with
          | .error fault => .error fault
          | .ok items => .ok (item :: items)

def partItems : List (List Draft) → Except PatternFault (List Pattern)
  | [] => .ok []
  | part :: parts =>
      match draftItems part with
      | .error fault => .error fault
      | .ok items =>
          match partItems parts with
          | .error fault => .error fault
          | .ok patterns => .ok (items :: patterns)

end

def prependItem (item : Item) : Except PatternFault Pattern → Except PatternFault Pattern
  | .error fault => .error fault
  | .ok items => .ok (item :: items)

/-- The items of a whole text.  Each bracket is looked up before the next one is
read. -/
def readPattern : Nat → List Piece → Except PatternFault Pattern
  | depth + 1, piece :: pieces =>
      match piece, pieces with
      | .opening _, .opening _ :: rest =>
          prependItem (.literal (Text.bytes ['['])) (readPattern depth rest)
      | .opening index, _ =>
          match readBracket index depth pieces with
          | .error (fault, _) => .error fault
          | .ok (draft, rest) =>
              match draft.item with
              | .error fault => .error fault
              | .ok item => prependItem item (readPattern depth rest)
      | .closing _, _ => prependItem (.literal (Text.bytes [']'])) (readPattern depth pieces)
      | .blank _ text, _ => prependItem (.literal (Text.bytes text)) (readPattern depth pieces)
      | .word _ text, _ => prependItem (.literal (Text.bytes text)) (readPattern depth pieces)
  | _, _ => .ok []

def Pattern.ofText (text : String) : Except PatternFault Pattern :=
  let pieces := cut text
  readPattern (pieces.length + 1) pieces

end Date
end RecordFilter

/-
Names at the top of a settings source.

A name is a word, or a word with steps behind it that lead into the entry of that
word: a point and a word, or an index in brackets.  What follows another form is
taken as a word of its own.
-/
import RecordFilter.Settings.Literal

namespace RecordFilter
namespace Settings

inductive Reach where
  | entry (word : List Char)
  | inside (word : List Char)
deriving DecidableEq, Repr, Inhabited

def isWordChar (c : Char) : Bool := c.isAlphanum || c = '_' || c = '-'

def spanWord (text : List Char) : List Char × List Char :=
  (text.takeWhile isWordChar, text.dropWhile isWordChar)

/-- What follows an index and its closing bracket.  An index has an optional
minus and blanks around it, and fits 64 signed bits. -/
def afterIndex? (text : List Char) : Option (List Char) :=
  let inner := text.takeWhile (· != ']')
  let index := ((inner.dropWhile isBlank).reverse.dropWhile isBlank).reverse
  match integerIn? 10 index, text.drop inner.length with
  | some _, _ :: rest => if index.head? = some '+' then none else some rest
  | _, _ => none

def isSteps : Nat → List Char → Bool
  | _, [] => true
  | length + 1, '.' :: rest =>
      let (word, after) := spanWord rest
      !word.isEmpty && isSteps length after
  | length + 1, '[' :: rest =>
      match afterIndex? rest with
      | some after => isSteps length after
      | none => false
  | _, _ => false

def Reach.of (name : List Char) : Reach :=
  let (word, steps) := spanWord name
  if !word.isEmpty && !steps.isEmpty && isSteps steps.length steps then .inside word
  else .entry name

end Settings
end RecordFilter

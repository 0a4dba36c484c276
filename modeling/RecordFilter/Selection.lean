/-
Selecting records.

A selection is a list of clauses, all of which have to hold, and the choice to
drop repeated records.  The clauses of a record are asked in order up to the
first that fails, and an error in any record is an error of the selection, the
earliest one of several.
-/
import RecordFilter.Eval.Evaluator
import RecordFilter.Filter.Parse

namespace RecordFilter

open Json (Value)

structure Selection where
  clauses : List Filter := []
  isDistinct : Bool := false
deriving Inhabited

namespace Selection

/-! ### Building -/

def addFilter (selection : Selection) (filter : Filter) : Selection :=
  { selection with clauses := selection.clauses ++ [filter] }

def addLeaf (selection : Selection) (field operator : String) (value : Atom) : Selection :=
  selection.addFilter (.leaf field operator value)

/-- The selection with one more clause from text; the empty text adds none. -/
def addText (selection : Selection) (input : String) : Except GrammarError Selection :=
  match Filter.parse input with
  | .error error => .error error
  | .ok none => .ok selection
  | .ok (some filter) => .ok (selection.addFilter filter)

def distinct (selection : Selection) : Selection := { selection with isDistinct := true }

def filter? (selection : Selection) : Option Filter :=
  match selection.clauses with
  | [] => none
  | [only] => some only
  | clauses => some (.all clauses)

/-! ### Applying -/

/-- Whether some clauses hold for a record, asked in order up to the first that does
not. -/
def holdAll (evaluator : Evaluator) (record : Value) : List Filter → Except EvalError Bool
  | [] => .ok true
  | clause :: clauses =>
      match evaluator.test record clause with
      | .error error => .error error
      | .ok false => .ok false
      | .ok true => holdAll evaluator record clauses

def isMatch (selection : Selection) (evaluator : Evaluator) (record : Value) :
    Except EvalError Bool :=
  holdAll evaluator record selection.clauses

def matching (selection : Selection) (evaluator : Evaluator) :
    List Value → Except EvalError (List Value)
  | [] => .ok []
  | record :: records =>
      match selection.isMatch evaluator record with
      | .error error => .error error
      | .ok held =>
          match selection.matching evaluator records with
          | .error error => .error error
          | .ok found => .ok (if held then record :: found else found)

/-- The records without those whose text was seen before. -/
def dropRepeated (seen : List (List Char)) : List Value → List Value
  | [] => []
  | record :: records =>
      if seen.contains record.write then dropRepeated seen records
      else record :: dropRepeated (record.write :: seen) records

def apply (selection : Selection) (evaluator : Evaluator) (records : List Value) :
    Except EvalError (List Value) :=
  match selection.matching evaluator records with
  | .error error => .error error
  | .ok found => .ok (if selection.isDistinct then dropRepeated [] found else found)

end Selection
end RecordFilter

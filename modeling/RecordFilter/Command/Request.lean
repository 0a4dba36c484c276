/-
What the program can be asked to do.

There are two commands: to check a filter and show it in its normal form, and to
select the records for which all of some filters hold.
-/

namespace RecordFilter
namespace Command

structure CheckRequest where
  expression : String
  asJson : Bool := false
deriving DecidableEq, Repr, Inhabited

structure SelectRequest where
  clauses : List String
  /-- The file with the records; otherwise they come from the standard input. -/
  input : Option String := none
  /-- The file for the selected records; otherwise they are printed. -/
  output : Option String := none
  config : Option String := none
  isDistinct : Bool := false
  /-- The number of threads that may be used; it has no effect on the answer. -/
  threads : Option Nat := none
deriving DecidableEq, Repr, Inhabited

inductive Request where
  | check (request : CheckRequest)
  | select (request : SelectRequest)
deriving DecidableEq, Repr, Inhabited

structure Invocation where
  request : Request
  verbose : Bool := false
deriving DecidableEq, Repr, Inhabited

end Command
end RecordFilter

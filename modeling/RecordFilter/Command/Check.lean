/-
Checking a filter.

The answer is the filter in its normal form on a line of its own; its tree may
follow as indented JSON, null for the empty filter.
-/
import RecordFilter.Command.Request
import RecordFilter.Filter.Encoding
import RecordFilter.Filter.Parse
import RecordFilter.Filter.Render
import RecordFilter.Json.Printer

namespace RecordFilter
namespace Command

structure CheckError where
  expression : String
  cause : GrammarError
deriving DecidableEq, Repr, Inhabited

def CheckError.message (error : CheckError) : String :=
  "Check: invalid filter \x60" ++ error.expression ++ "\x60"

def CheckRequest.report (request : CheckRequest) (filter : Option Filter) : String :=
  Filter.renderOption filter ++ "\n" ++
    (if request.asJson then (Filter.optionToJson filter).indented ++ "\n" else "")

def CheckRequest.run (request : CheckRequest) : Except CheckError String :=
  match Filter.parse request.expression with
  | .error cause => .error ⟨request.expression, cause⟩
  | .ok filter => .ok (request.report filter)

end Command
end RecordFilter

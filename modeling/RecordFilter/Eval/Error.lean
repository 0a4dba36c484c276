/-
What can go wrong when a filter is applied to a record.

The first four causes arise from one comparison and one record; a date format
that is no pattern is refused before any record is looked at.
-/
import RecordFilter.Date.PatternFault

namespace RecordFilter

inductive EvalError where
  | unresolvedField (path segment kind : String)
  | unsupportedOperator (token : String)
  /-- The operator `in` got a value that is neither a list nor a text. -/
  | invalidInOperand (operand : String)
  | invalidDate (value format : String)
  | dateFormat (format : String) (fault : Date.PatternFault)
deriving DecidableEq, Repr, Inhabited

namespace EvalError

def message : EvalError → String
  | .unresolvedField path segment kind =>
      "cannot resolve field path \x60" ++ path ++ "\x60: cannot read \x60" ++ segment ++
        "\x60 from " ++ kind
  | .unsupportedOperator token => "unsupported operator \x60" ++ token ++ "\x60"
  | .invalidInOperand operand =>
      "operator \x60in\x60 expects a list, got \x60" ++ operand ++ "\x60"
  | .invalidDate value format =>
      "illegal date \x60" ++ value ++ "\x60, required format is \x60" ++ format ++ "\x60"
  | .dateFormat format fault =>
      "invalid date format \x60" ++ format ++ "\x60: " ++ fault.message

end EvalError
end RecordFilter

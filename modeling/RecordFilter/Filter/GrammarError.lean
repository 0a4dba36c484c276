/-
What can be wrong with the text of a filter.

An error names the span of tokens it is about, joined again by the delimiter.
An error inside brackets is wrapped once for each level it lies in; `rootCause`
is the innermost one.
-/

namespace RecordFilter

inductive GrammarError where
  /-- The number of tokens is not three more than a multiple of four. -/
  | tokenCount (span : String) (count : Nat)
  | emptyToken (position : Nat)
  | unbalancedBrackets (span : String)
  | mixedLogic (token span : String)
  | emptyCondition (span : String)
  | nested (span : String) (source : GrammarError)
deriving DecidableEq, Repr, Inhabited

namespace GrammarError

def quoted (text : String) : String := "\x60" ++ text ++ "\x60"

def message : GrammarError → String
  | .tokenCount span count =>
      "illegal token count " ++ toString count ++ " in " ++ quoted span ++
        ": expected a multiple of 4 plus 3"
  | .emptyToken position => "empty token at position " ++ toString position
  | .unbalancedBrackets span => "unbalanced brackets in " ++ quoted span
  | .mixedLogic token span =>
      "illegal or mixed logic " ++ quoted token ++ " in one level of " ++ quoted span
  | .emptyCondition span => "incomplete condition " ++ quoted span
  | .nested span source => "in " ++ quoted span ++ ": " ++ source.message

def rootCause : GrammarError → GrammarError
  | .nested _ source => source.rootCause
  | error => error

end GrammarError
end RecordFilter

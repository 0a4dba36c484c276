/-
What can be wrong with the text of a date pattern.

Every fault names the byte of the text at which it was found.
-/

namespace RecordFilter
namespace Date

inductive PatternFault where
  | unclosedBracket (index : Nat)
  | missingName (index : Nat)
  | unknownName (name : String) (index : Nat)
  /-- An unknown key, a value that the key does not take, or a word without colon. -/
  | badModifier (text : String) (index : Nat)
  | missingModifier (key : String) (index : Nat)
  | blankExpected (index : Nat)
  | partExpected (index : Nat)
  | severalParts (index : Nat)
  | partsUnsupported (index : Nat)
  | unwrittenPart (index : Nat)
deriving DecidableEq, Repr, Inhabited

namespace PatternFault

def located (text : String) (index : Nat) : String :=
  text ++ " at byte index " ++ toString index

def message : PatternFault → String
  | .unclosedBracket index => located "unclosed opening bracket" index
  | .missingName index => located "missing component name" index
  | .unknownName name index => located ("invalid component name \x60" ++ name ++ "\x60") index
  | .badModifier text index => located ("invalid modifier \x60" ++ text ++ "\x60") index
  | .missingModifier key index =>
      located ("missing required modifier \x60" ++ key ++ "\x60 for component") index
  | .blankExpected index =>
      located "expected whitespace before nested format description" index
  | .partExpected index => located "expected nested format description" index
  | .severalParts index =>
      located ("more than one nested format description is not supported in " ++
        "\x60optional\x60 components") index
  | .partsUnsupported index =>
      located "nested format descriptions is not supported in on this component" index
  | .unwrittenPart index =>
      located ("optional item with \x60format:false\x60 is not supported in " ++
        "v1 and v2 format descriptions") index

end PatternFault
end Date
end RecordFilter

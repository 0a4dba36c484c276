/-
Command lines.

An argument that begins with two hyphens names a switch by its word, one that
begins with one hyphen names switches by their letters, and any other is the
value that a switch waits for, the name of a command, or the operand of one.
Behind two hyphens alone no argument is a switch.  A switch that waits for its
value is settled by the next switch that is known, or at the end; its value is
looked at only then.
-/
import RecordFilter.Command.Request
import RecordFilter.Decimal.Literal

namespace RecordFilter
namespace Command

/-! ### Switches -/

inductive Switch where
  | verbose
  | help
  | version
  | json
  | clause
  | input
  | output
  | config
  | distinct
  | threads
deriving DecidableEq, Repr, Inhabited

def Switch.takesValue : Switch → Bool
  | .clause | .input | .output | .config | .threads => true
  | .verbose | .help | .version | .json | .distinct => false

def Switch.repeats : Switch → Bool
  | .clause => true
  | _ => false

inductive Level where
  | top
  | check
  | select
deriving DecidableEq, Repr, Inhabited

def Level.words : Level → List (String × Switch)
  | .top => [("verbose", .verbose), ("help", .help), ("version", .version)]
  | .check => [("json", .json), ("verbose", .verbose), ("help", .help)]
  | .select =>
      [("where", .clause), ("input", .input), ("output", .output), ("config", .config),
        ("distinct", .distinct), ("threads", .threads), ("verbose", .verbose), ("help", .help)]

def Level.letters : Level → List (Char × Switch)
  | .top => [('v', .verbose), ('h', .help), ('V', .version)]
  | .check => [('v', .verbose), ('h', .help)]
  | .select =>
      [('w', .clause), ('i', .input), ('o', .output), ('c', .config), ('t', .threads),
        ('v', .verbose), ('h', .help)]

def commandNames : List String := ["check", "select", "help"]

/-! ### Errors -/

inductive UsageError where
  | unknownArgument
  | unknownCommand
  | needlessValue
  | missingValue
  | badValue
  | repeated
  | missingArgument
  | missingCommand
  | nothingGiven
  | helpAsked
  | versionAsked
deriving DecidableEq, Repr, Inhabited

/-! ### Values -/

def threads? (text : String) : Option Nat :=
  match text.toList with
  | '-' :: _ => none
  | chars =>
      match Decimal.readInteger? chars with
      | some n => if n < 0x10000000000000000 then some n.toNat else none
      | none => none

def Switch.complaint? (value : String) : Switch → Option UsageError
  | .input | .output | .config => if value = "" then some .missingValue else none
  | .threads => if (threads? value).isNone then some .badValue else none
  | _ => none

/-! ### Drafts -/

structure Draft where
  settled : List (Switch × String) := []
  waiting : Option (Switch × Option String) := none
  operand : Option String := none
  switchesEnd : Bool := false
deriving DecidableEq, Repr, Inhabited

namespace Draft

def has (draft : Draft) (switch : Switch) : Bool :=
  draft.settled.any fun entry => entry.1 == switch

def values (draft : Draft) (switch : Switch) : List String :=
  draft.settled.filterMap fun entry => if entry.1 = switch then some entry.2 else none

def put (draft : Draft) (switch : Switch) (value : String) : Except UsageError Draft :=
  match switch with
  | .help => .error .helpAsked
  | .version => .error .versionAsked
  | _ =>
      if draft.has switch && !switch.repeats then .error .repeated
      else
        match switch.complaint? value with
        | some error => .error error
        | none => .ok { draft with settled := draft.settled ++ [(switch, value)] }

def settle (draft : Draft) : Except UsageError Draft :=
  match draft.waiting with
  | none => .ok draft
  | some (_, none) => .error .missingValue
  | some (switch, some value) => { draft with waiting := none }.put switch value

def react (draft : Draft) (switch : Switch) (value : String) : Except UsageError Draft :=
  match draft.settle with
  | .error error => .error error
  | .ok settled => settled.put switch value

def await (draft : Draft) (switch : Switch) : Except UsageError Draft :=
  match draft.settle with
  | .error error => .error error
  | .ok settled => .ok { settled with waiting := some (switch, none) }

def readWord (level : Level) (draft : Draft) (text : List Char) : Except UsageError Draft :=
  let word := text.takeWhile (· != '=')
  match level.words.lookup (String.ofList word), text.drop word.length with
  | none, _ => .error .unknownArgument
  | some switch, [] => if switch.takesValue then draft.await switch else draft.react switch ""
  | some switch, _ :: value =>
      if switch.takesValue then draft.react switch (String.ofList value)
      else .error .needlessValue

/-- Switches that are named by their letters.  What follows the letter of a switch
with a value is the value, behind an equals sign or at once. -/
def readLetters (level : Level) (draft : Draft) : List Char → Except UsageError Draft
  | [] => .ok draft
  | letter :: rest =>
      match level.letters.lookup letter with
      | none => .error .unknownArgument
      | some switch =>
          if switch.takesValue then
            match rest with
            | [] => draft.await switch
            | '=' :: value => draft.react switch (String.ofList value)
            | value => draft.react switch (String.ofList value)
          else
            match draft.react switch "" with
            | .error error => .error error
            | .ok next => readLetters level next rest

def readOperand (level : Level) (draft : Draft) (argument : String) : Except UsageError Draft :=
  match level, draft.operand with
  | .check, none =>
      match draft.settle with
      | .error error => .error error
      | .ok settled => .ok { settled with operand := some argument }
  | .top, _ =>
      if draft.switchesEnd && commandNames.contains argument then .error .unknownArgument
      else .error .unknownCommand
  | _, _ => .error .unknownArgument

def read (level : Level) (draft : Draft) (argument : String) : Except UsageError Draft :=
  if draft.switchesEnd then draft.readOperand level argument
  else
    match argument.toList with
    | ['-', '-'] => .ok { draft with switchesEnd := true }
    | '-' :: '-' :: text => draft.readWord level text
    | '-' :: letter :: text => draft.readLetters level (letter :: text)
    | _ =>
        match draft.waiting with
        | some (switch, none) => .ok { draft with waiting := some (switch, some argument) }
        | _ => draft.readOperand level argument

def readAll (level : Level) (draft : Draft) : List String → Except UsageError Draft
  | [] => draft.settle
  | argument :: arguments =>
      match draft.read level argument with
      | .error error => .error error
      | .ok next => readAll level next arguments

end Draft

/-! ### Commands -/

def checkOf (draft : Draft) : Except UsageError CheckRequest :=
  match draft.operand with
  | none => .error .missingArgument
  | some expression => .ok ⟨expression, draft.has .json⟩

def withDefaultConfig (config : Option String) (draft : Draft) : Except UsageError Draft :=
  match config with
  | none => .ok draft
  | some path => if draft.has .config then .ok draft else draft.put .config path

def selectOf (draft : Draft) : Except UsageError SelectRequest :=
  if draft.has .clause then
    .ok {
      clauses := draft.values .clause
      input := (draft.values .input).head?
      output := (draft.values .output).head?
      config := (draft.values .config).head?
      isDistinct := draft.has .distinct
      threads := (draft.values .threads).head?.bind threads?
    }
  else .error .missingArgument

def readCommand (config : Option String) (verbose : Bool) (level : Level)
    (arguments : List String) : Except UsageError Invocation :=
  match Draft.readAll level {} arguments with
  | .error error => .error error
  | .ok draft =>
      let verbose := verbose || draft.has .verbose
      match level with
      | .check => (checkOf draft).map fun request => ⟨.check request, verbose⟩
      | _ =>
          match withDefaultConfig config draft with
          | .error error => .error error
          | .ok draft => (selectOf draft).map fun request => ⟨.select request, verbose⟩

def helpOn : List String → UsageError
  | [] => .helpAsked
  | [name] => if commandNames.contains name then .helpAsked else .unknownCommand
  | _ => .unknownCommand

def readTop (config : Option String) (draft : Draft) : List String → Except UsageError Invocation
  | [] => .error (if draft.settled.isEmpty then .nothingGiven else .missingCommand)
  | argument :: arguments =>
      if !draft.switchesEnd && argument = "check" then
        readCommand config (draft.has .verbose) .check arguments
      else if !draft.switchesEnd && argument = "select" then
        readCommand config (draft.has .verbose) .select arguments
      else if !draft.switchesEnd && argument = "help" then .error (helpOn arguments)
      else
        match draft.read .top argument with
        | .error error => .error error
        | .ok next => readTop config next arguments

/-- The command that a command line asks for; `config` is the settings file that
is used when none is given. -/
def Invocation.ofArguments (config : Option String) (arguments : List String) :
    Except UsageError Invocation :=
  readTop config {} arguments

end Command
end RecordFilter

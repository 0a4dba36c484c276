/-
Selecting records from a file into a file.

The settings come first, then the date format, the filters, the records, and the
answers of the filters; only when all of that succeeded is anything written.  So
a selection that fails leaves everything as it was, and one that succeeds writes
what follows from the files as they were before.  How settings are loaded is left open.
-/
import RecordFilter.Command.Request
import RecordFilter.FileStore.Listing
import RecordFilter.Records
import RecordFilter.Selection
import RecordFilter.Settings.Load

namespace RecordFilter
namespace Command

open Json (Value)

/-- What a command finds and leaves: the files, the environment, the standard
input, and what was printed. -/
structure Workspace where
  files : FileStore := .ofFiles []
  environment : Settings.Environment := []
  input : Content := ""
  printed : String := ""
deriving Inhabited

/-! ### Errors -/

inductive SelectError where
  | settings (cause : Settings.Fault)
  | dateFormat (cause : EvalError)
  | clause (text : String) (cause : GrammarError)
  | cannotOpen (path : String)
  | cannotRead (path : String)
  | badRecord (fault : Records.Fault)
  | evaluation (cause : EvalError)
  | cannotCreate (path : String)
deriving DecidableEq, Repr, Inhabited

def SelectError.message : SelectError → String
  | .settings _ => "Select: Failed to load config"
  | .dateFormat _ => "Select: Invalid date format"
  | .clause text _ => "Select: invalid filter \x60" ++ text ++ "\x60"
  | .cannotOpen path => "Select: Failed to open " ++ path
  | .cannotRead path => "Select: Failed to read " ++ path
  | .badRecord fault =>
      "Select: " ++ fault.source ++ ":" ++ toString fault.line ++ ": invalid JSON record"
  | .evaluation cause => cause.message
  | .cannotCreate path => "Select: Failed to create " ++ path

/-! ### Steps -/

def SelectRequest.evaluator (request : SelectRequest) (load : Settings.Loader)
    (workspace : Workspace) : Except SelectError Evaluator :=
  match load workspace.files.entry workspace.environment request.config with
  | .error fault => .error (.settings fault)
  | .ok format =>
      match Evaluator.ofFormat format with
      | .error cause => .error (.dateFormat cause)
      | .ok evaluator => .ok evaluator

/-- The selection with all of some filters; the first that cannot be read is the
error. -/
def addClauses (selection : Selection) : List String → Except SelectError Selection
  | [] => .ok selection
  | text :: texts =>
      match selection.addText text with
      | .error cause => .error (.clause text cause)
      | .ok next => addClauses next texts

def SelectRequest.selection (request : SelectRequest) : Except SelectError Selection :=
  addClauses ⟨[], request.isDistinct⟩ request.clauses

def inputName : String := "<stdin>"

def SelectRequest.source (request : SelectRequest) (workspace : Workspace) :
    Except SelectError (String × Content) :=
  match request.input with
  | none => .ok (inputName, workspace.input)
  | some path =>
      match workspace.files.entry path with
      | .file text => .ok (path, .ofText text)
      | .broken front rest => .ok (path, ⟨front, rest⟩)
      | .directory => .error (.cannotRead path)
      | .locked _ | .missing => .error (.cannotOpen path)

/-- The records of all lines.  A line that is no record comes before a later one that
is no text. -/
def SelectRequest.records (request : SelectRequest) (workspace : Workspace) :
    Except SelectError (List Value) :=
  match request.source workspace with
  | .error error => .error error
  | .ok (name, content) =>
      match Records.read name content.text with
      | .error fault => .error (.badRecord fault)
      | .ok records => if content.isWhole then .ok records else .error (.cannotRead name)

/-- The selected records.  Nothing is written to find them. -/
def SelectRequest.selected (request : SelectRequest) (load : Settings.Loader)
    (workspace : Workspace) : Except SelectError (List Value) :=
  match request.evaluator load workspace with
  | .error error => .error error
  | .ok evaluator =>
      match request.selection with
      | .error error => .error error
      | .ok selection =>
          match request.records workspace with
          | .error error => .error error
          | .ok records =>
              match selection.apply evaluator records with
              | .error cause => .error (.evaluation cause)
              | .ok found => .ok found

/-- The workspace once the output is open: a file is made, or emptied if it is there. -/
def Workspace.create (workspace : Workspace) : Option String → Except SelectError Workspace
  | none => .ok workspace
  | some path =>
      if workspace.files.canWrite path then
        .ok { workspace with files := workspace.files.write path "" }
      else .error (.cannotCreate path)

def Workspace.append (workspace : Workspace) (text : String) : Option String → Workspace
  | none => { workspace with printed := workspace.printed ++ text }
  | some path => { workspace with files := workspace.files.append path text }

def SelectRequest.run (request : SelectRequest) (load : Settings.Loader)
    (workspace : Workspace) : Except SelectError Nat × Workspace :=
  match request.selected load workspace with
  | .error error => (.error error, workspace)
  | .ok found =>
      match workspace.create request.output with
      | .error error => (.error error, workspace)
      | .ok created => (.ok found.length, created.append (Records.write found) request.output)

end Command
end RecordFilter

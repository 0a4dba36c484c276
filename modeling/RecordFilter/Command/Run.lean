/-
A whole run of the program.

A command line is read and its command carried out.  The exit status is 0 for an
answer, 1 for an error of the command, and 2 for a command line that asks for
none; help and the version are answers.
-/
import RecordFilter.Command.Arguments
import RecordFilter.Command.Check
import RecordFilter.Command.Select

namespace RecordFilter
namespace Command

/-- The end of a run: its exit status, the wording of an error, and what the run
leaves. -/
structure Outcome where
  status : Nat
  complaint : Option String := none
  after : Workspace
deriving Inhabited

def UsageError.isAnswered : UsageError → Bool
  | .helpAsked | .versionAsked => true
  | _ => false

def Request.run (request : Request) (load : Settings.Loader) (workspace : Workspace) : Outcome :=
  match request with
  | .check request =>
      match request.run with
      | .error error => ⟨1, some error.message, workspace⟩
      | .ok report => ⟨0, none, { workspace with printed := workspace.printed ++ report }⟩
  | .select request =>
      match request.run load workspace with
      | (.error error, after) => ⟨1, some error.message, after⟩
      | (.ok _, after) => ⟨0, none, after⟩

def Request.paths : Request → List String
  | .check _ => []
  | .select request =>
      request.input.toList ++
        request.output.toList.flatMap (fun path => [path, FileStore.parent path]) ++
        request.config.toList.flatMap (Settings.candidates Settings.usualFormats)

def Request.readsInput : Request → Bool
  | .check _ => false
  | .select request => request.input.isNone

def configVariable : String := "FILTERSPEC_CONFIG"

def Workspace.invocation (workspace : Workspace) (arguments : List String) :
    Except UsageError Invocation :=
  Invocation.ofArguments (workspace.environment.lookup configVariable) arguments

def Workspace.run (workspace : Workspace) (load : Settings.Loader) (arguments : List String) :
    Outcome :=
  match workspace.invocation arguments with
  | .error error => ⟨if error.isAnswered then 0 else 2, none, workspace⟩
  | .ok invocation => invocation.request.run load workspace

end Command
end RecordFilter

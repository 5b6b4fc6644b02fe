import SimStudio.Fault
import SimStudio.Reference

/-!
# Failures

Why a command is refused, with the wording for the user. There are three kinds,
and each has its own exit code: the request itself is at fault, a document is
well formed but breaks a rule, or a result could not be stored.

Where reading or writing fails, the cause lies in a document or in the file
system, and the wording says only what was attempted.

## Main definitions

* `RequestError`, `Violation`, `SaveError`: The three kinds.
* `Failure`: Any of them.
* `Failure.message`, `Failure.exitCode`: What the user gets to see.
* `Stop`: A failure or a fault.
-/

namespace SimStudio

/-- The formats of project documents. -/
inductive DocumentFormat
  | json
  | yaml
  deriving DecidableEq, Inhabited

/-- What is wrong with a request. -/
inductive RequestError
  | unreadableProject (path : String)
  | unreadableConfig (path : String)
  | malformedProject (format : DocumentFormat)
  | malformedConfig
  | noRole (id : UInt32)
  | noPartial (name : String)
  | selectionOutside (first last length : Nat)
  | endWithoutStart
  | nothingToInsert
  deriving DecidableEq, Inhabited

/-- The wording of a bad request. -/
def RequestError.message : RequestError → String
  | unreadableProject path => s!"failed to read project file '{path}'"
  | unreadableConfig path => s!"failed to read config file '{path}'"
  | malformedProject .json => "failed to parse project JSON"
  | malformedProject .yaml => "failed to parse project YAML"
  | malformedConfig => "failed to parse config YAML"
  | noRole id => s!"no agent role with id {id}"
  | noPartial name => s!"no prompt partial named '{name}'"
  | selectionOutside first last length =>
      s!"selection {first}..{last} is outside the prompt (length {length})"
  | endWithoutStart => "--end requires --start"
  | nothingToInsert => "nothing to insert"

/-- The two delays of a hybrid manager. -/
inductive DelayKind
  | max
  | min
  deriving DecidableEq, Inhabited

/-- The key of a delay. -/
def DelayKind.key : DelayKind → String
  | max => "maxActionDelay"
  | min => "minActionDelay"

/-- A rule for projects or settings that a document breaks. -/
inductive Violation
  | emptyProjectName
  | duplicatePartialId (id : String)
  | duplicatePartialName (name : String)
  | duplicateRoleId (id : UInt32) (name : String)
  | emptyFieldName (space : StateNamespace)
  | duplicateField (space : StateNamespace) (name : String)
  | badDelay (kind : DelayKind) (found : Binary64)
  | emptyHostname
  | zeroPort
  | emptyOutputDir
  deriving DecidableEq, Inhabited

/-- The wording of a broken rule. -/
def Violation.message : Violation → String
  | emptyProjectName => "project name must not be empty"
  | duplicatePartialId id => s!"duplicate prompt partial id '{id}'"
  | duplicatePartialName name => s!"duplicate prompt partial name '{name}'"
  | duplicateRoleId id name => s!"duplicate role id {id} (role '{name}')"
  | emptyFieldName space => space.sectionKey ++ " contains a field with an empty name"
  | duplicateField space name => s!"duplicate field '{name}' in " ++ space.sectionKey
  | badDelay kind found =>
      kind.key ++ " must be a non-negative number (found " ++ Manager.delayLayout.text found ++ ")"
  | emptyHostname => "config validation failed: server.hostname must not be empty"
  | zeroPort => "config validation failed: server.port must be greater than 0"
  | emptyOutputDir => "config validation failed: export.output_dir must not be empty"

/-- Why a result could not be stored. -/
inductive SaveError
  | parentDirectory (path : String)
  | temporaryFile (directory : String)
  | temporaryWrite
  | temporarySync
  | replacement (path : String)
  | staging
  | stagedRead
  | locationRead
  /-- What a download host says on its own account. -/
  | host (message : String)
  deriving DecidableEq, Inhabited

/-- The wording of a failed save. -/
def SaveError.message : SaveError → String
  | parentDirectory path => s!"failed to create parent directory '{path}'"
  | temporaryFile directory => s!"failed to create temporary file in '{directory}'"
  | temporaryWrite => "failed to write temporary file"
  | temporarySync => "failed to sync temporary file to disk"
  | replacement path => s!"failed to atomically replace '{path}'"
  | staging => "failed to stage download"
  | stagedRead => "failed to read staged download"
  | locationRead => "failed to read save location"
  | host message => message

/-- Why a command is refused. -/
inductive Failure
  | request (e : RequestError)
  | violation (v : Violation)
  | save (e : SaveError)
  deriving DecidableEq, Inhabited

namespace Failure

/-- The wording without the words that introduce its kind. -/
def detail : Failure → String
  | request e => e.message
  | violation v => v.message
  | save e => e.message

/-- The words that introduce a kind of failure. -/
def heading : Failure → String
  | request _ => ""
  | violation _ => "Validation failed: "
  | save _ => "Save failed: "

/-- What the user gets to see. -/
def message (f : Failure) : String := f.heading ++ f.detail

/-- The exit code of the program. -/
def exitCode : Failure → UInt8
  | request _ => 1
  | violation _ => 2
  | save _ => 3

end Failure

/-- Why a command came to an end before its time. -/
inductive Stop
  | failed (f : Failure)
  | faulted (f : Fault)
  deriving DecidableEq, Inhabited

end SimStudio

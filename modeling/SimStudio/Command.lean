import SimStudio.Configuration
import SimStudio.ExportName
import SimStudio.Project.File
import SimStudio.Project.Insert
import SimStudio.Settings.File

/-!
# Commands

What a user can ask for, and how it is done. A command reads what it needs,
does its work, and reports on the output. It stops at the first failure; what
was written before that stays.

## Main definitions

* `Command`: What a user can ask for.
* `Command.run`: Do it.
-/

namespace SimStudio

/-- What a new project is to be. -/
structure NewRequest where
  name : String
  description : Option String := none
  gameId : Option Int64 := none
  hybrid : Bool := false
  continuousPhases : List UInt32 := []
  maxDelay : Binary64 := .zero
  minDelay : Binary64 := .zero
  output : Option Path := none
  deriving Inhabited

/-- Which project is to be imported. -/
structure ImportRequest where
  file : Path
  output : Option Path := none
  deriving Inhabited

/-- Which project is to be exported, and how. -/
structure ExportRequest where
  project : Path
  toOutput : Bool := false
  saveAs : Option Path := none
  saveMode : Option SaveMode := none
  outputDir : Option Path := none
  hostname : Option String := none
  port : Option UInt16 := none
  path : Option String := none
  deriving Inhabited

/-- What is to be inserted into a prompt. -/
inductive Insertion
  | field (space : StateNamespace) (name : String)
  | inclusion (name : String)
  | text (literal : String)
  deriving DecidableEq, Inhabited

/-- Where something is to be inserted. -/
structure InsertRequest where
  project : Path
  role : UInt32
  slot : String
  insertion : Insertion
  first : Option Nat := none
  last : Option Nat := none
  deriving Inhabited

/-- What a user can ask for. -/
inductive Command
  | new (request : NewRequest)
  | importProject (request : ImportRequest)
  | exportProject (request : ExportRequest)
  | insert (request : InsertRequest)
  | listReferences (project : Path)
  | showToken (space : StateNamespace) (field : String)
  | showFilename (name : String)
  deriving Inhabited

/-- A literal that is to be inserted. -/
def Insertion.literal (insertion : Insertion) (p : Project) : Except RequestError String :=
  match insertion with
  | field space name => .ok (space.token name)
  | inclusion name =>
      match p.partial? name with
      | some found => .ok (includeReference found.name)
      | none => .error (.noPartial name)
  | text literal => .ok literal

/-- The selection that two optional ends make. -/
def selectionOf (first last : Option Nat) : Except RequestError (Option (Nat × Nat)) :=
  match first, last with
  | none, none => .ok none
  | some first, last => .ok (some (first, last.getD first))
  | none, some _ => .error .endWithoutStart

/-- A text in a column of a width. -/
def column (width : Nat) (s : String) : String :=
  s ++ String.ofList (List.replicate (width - s.length) ' ')

/-- The lines in which references are listed. -/
def referenceLines (p : Project) : List String :=
  (p.state.references.map fun r => r.space.name ++ " " ++ column 24 r.field ++ " " ++ r.token) ++
    p.partials.map fun found =>
      "partial  " ++ column 24 found.name ++ " " ++ includeReference found.name

variable {m : Type → Type} [Machine m]

/-- A step of a command, which may fail. -/
abbrev Step (m : Type → Type) := ExceptT Stop m

namespace Step

/-- A step that may be refused. -/
def ofFailing {α : Type} (act : m (Except Failure α)) : Step m α := do
  match ← act with
  | .ok a => pure a
  | .error f => throw (.failed f)

/-- A result that a bad request may have spoilt. -/
def ofRequest {α : Type} (result : Except RequestError α) : Step m α :=
  match result with
  | .ok a => pure a
  | .error e => throw (.failed (.request e))

/-- A line of output. -/
def printLine (line : String) : Step m Unit := Machine.print (m := m) (line ++ "\n")

end Step

open Step

/-- Store a draft as a new project. -/
def storeNew (draft : Project) (output : Option Path) : Step m Unit := do
  let id ← Machine.freshId (m := m)
  let now ← Machine.now (m := m)
  let p := draft.materialize id now
  let path := output.getD ⟨p.id ++ ".yaml"⟩
  ofFailing (p.save path)
  printLine ("Created project: " ++ p.name)
  printLine ("  Id:   " ++ p.id)
  printLine ("  File: " ++ path.text)

/-- The draft of a new project. -/
def NewRequest.draft (r : NewRequest) : Project :=
  { name := r.name
    description := r.description
    gameId := r.gameId
    manager := if r.hybrid then .hybrid r.continuousPhases r.maxDelay r.minDelay else .turnBased }

/-- Create a project. -/
def NewRequest.run (r : NewRequest) : Step m Unit := do
  let draft ← ofFailing (pure r.draft.validate)
  storeNew draft r.output

/-- Store a project from a document as a new one. -/
def ImportRequest.run (r : ImportRequest) : Step m Unit := do
  let p ← ofFailing (Project.load r.file)
  Machine.log (m := m) .info "importing project" [("source", r.file.text)]
  storeNew p r.output

/-- Compile a project, and print the configuration or save it. -/
def ExportRequest.run (r : ExportRequest) (settingsFile : Option Path) : Step m Unit := do
  let directory ← Machine.currentDirectory (m := m)
  let stored ← ofFailing (Settings.resolve settingsFile directory)
  let settings ← ofFailing (pure (stored.override r.hostname r.port r.path))
  let p ← ofFailing (Project.load r.project)
  match p.compile settings.server with
  | .error f => throw (.faulted f)
  | .ok text =>
      let filename := exportFilename p.name
      Machine.log (m := m) .debug "compiled"
        [("project", p.name), ("filename", filename), ("bytes", toString text.utf8ByteSize)]
      if r.toOutput then Machine.print (m := m) text
      else
        let environment : SaveEnvironment :=
          { mode := r.saveMode.getD settings.exporting.saveMode
            saveAs := r.saveAs
            interactive := ← Machine.interactive (m := m)
            outputDir := r.outputDir.getD ⟨settings.exporting.outputDir⟩ }
        match ← ExceptT.mk (environment.strategy.run text filename) with
        | .saved path => printLine ("Exported configuration to " ++ path.text)
        | .cancelled => printLine "Export cancelled."

/-- Insert something into a prompt of a stored project. -/
def InsertRequest.run (r : InsertRequest) : Step m Unit := do
  let p ← ofFailing (Project.load r.project)
  let literal ← ofRequest (r.insertion.literal p)
  let selection ← ofRequest (selectionOf r.first r.last)
  let (edited, p) := (Project.insertIntoPrompt r.role r.slot literal selection).run.run p
  let caret ← ExceptT.mk (pure edited)
  Machine.log (m := m) .debug "restored caret after commit" [("caret", toString caret)]
  Machine.log (m := m) .debug "inserted literal"
    [("role_id", toString r.role), ("slot", r.slot), ("caret", toString caret)]
  ofFailing (p.save r.project)
  printLine s!"Inserted {literal} into role {r.role} '{r.slot}'"
  printLine s!"  Caret: {caret}"

/-- List the references that a project offers. -/
def listReferences (project : Path) : Step m Unit := do
  let p ← ofFailing (Project.load project)
  match referenceLines p with
  | [] => printLine "No state fields or prompt partials declared."
  | lines => lines.forM printLine

/-- Do what a user asks for. -/
def Command.run (c : Command) (settingsFile : Option Path) : Step m Unit :=
  match c with
  | new r => r.run
  | importProject r => r.run
  | exportProject r => r.run settingsFile
  | insert r => r.run
  | listReferences project => SimStudio.listReferences project
  | showToken space field => printLine (space.token field)
  | showFilename name => printLine (exportFilename name)

end SimStudio

import SimStudio.Save.Download
import SimStudio.Save.Picker

/-!
# How to Save

Picking a place is preferred, where it is possible: a place was given, or there
is somebody to ask. Otherwise the text is downloaded. A user may insist on one of
the two.

How saving ended goes to the log.

## Main definitions

* `SaveMode`: What a user prefers.
* `SaveEnvironment`: What there is to choose from.
* `SaveEnvironment.strategy`: The choice.
* `SaveStrategy.run`: Save a text.
-/

namespace SimStudio

/-- What a user prefers. -/
inductive SaveMode
  | auto
  | picker
  | download
  deriving DecidableEq, Inhabited

namespace SaveMode

/-- The name of a mode. -/
def name : SaveMode → String
  | auto => "auto"
  | picker => "picker"
  | download => "download"

/-- The mode with a name. -/
def ofName? : String → Option SaveMode
  | "auto" => some auto
  | "picker" => some picker
  | "download" => some download
  | _ => none

end SaveMode

/-- A way to save. -/
inductive SaveStrategy
  | download (directory : Path)
  | pick (picker : Picker)
  deriving DecidableEq, Inhabited

/-- What there is to choose from. -/
structure SaveEnvironment where
  mode : SaveMode
  /-- A place that was given. -/
  saveAs : Option Path
  /-- Whether somebody can be asked. -/
  interactive : Bool
  /-- Where downloads go, and what is proposed. -/
  outputDir : Path
  deriving DecidableEq, Inhabited

namespace SaveEnvironment

/-- Whether a place can be picked. -/
def hasPicker (env : SaveEnvironment) : Bool :=
  match env.mode with
  | .download => false
  | .picker => true
  | .auto => env.saveAs.isSome || env.interactive

/-- The way to save. -/
def strategy (env : SaveEnvironment) : SaveStrategy :=
  if env.hasPicker then
    match env.saveAs with
    | some path => .pick (.fixed path)
    | none => .pick (.prompt env.outputDir)
  else .download env.outputDir

end SaveEnvironment

variable {m : Type → Type} [Machine m]

/-- Save through a download host. -/
def saveByDownload {Address Link : Type} (host : DownloadHost m Address Link)
    (text filename : String) : m (Except Stop SaveOutcome) := do
  Machine.log .warn "save picker unavailable, falling back to download" [("filename", filename)]
  match ← host.download text filename with
  | .ok path => pure (.ok (.saved path))
  | .error e => pure (.error e)

/-- Write to the log how saving ended. After a fault nothing is written any more. -/
def logOutcome (filename : String) (outcome : Except Stop SaveOutcome) : m Unit :=
  match outcome with
  | .ok (.saved path) => Machine.log .info "saved configuration" [("path", path.text)]
  | .ok .cancelled => Machine.log .info "save cancelled" [("filename", filename)]
  | .error (.failed f) =>
      Machine.log .error "failed to save configuration"
        [("filename", filename), ("error", f.message)]
  | .error (.faulted _) => pure ()

/-- Save a text under a name that is proposed or taken. -/
def SaveStrategy.run (strategy : SaveStrategy) (text filename : String) :
    m (Except Stop SaveOutcome) := do
  let outcome ← match strategy with
    | .download directory => saveByDownload (directoryHost directory) text filename
    | .pick picker => do pure ((← picker.save text filename).mapError .failed)
  logOutcome filename outcome
  pure outcome

end SimStudio

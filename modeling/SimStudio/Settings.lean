import SimStudio.Failure
import SimStudio.Save.Strategy
import SimStudio.Yaml.Record
import SimStudio.Yaml.Tree.Write

/-!
# Settings

What a user keeps for all projects: where simulations are to run, and where and
how configurations are saved. Settings are a YAML file; what it does not say has
a value of its own, and so has all of an empty file.

## Main definitions

* `Settings`: The settings.
* `Settings.violation?`: The first rule that they break.
* `Settings.ofYaml`: Read settings out of a text.
* `Settings.override`: Settings with another server.
* `Settings.toYaml`: The text of a settings file.
-/

namespace SimStudio

/-- Where and how configurations are saved. -/
structure ExportSettings where
  outputDir : String := "."
  saveMode : SaveMode := .auto
  deriving DecidableEq, Inhabited

/-- What a user keeps for all projects. -/
structure Settings where
  server : Server := {}
  exporting : ExportSettings := {}
  deriving DecidableEq, Inhabited

/-- Read where a simulation is to run. -/
def Server.read (place : Yaml.Place) : Reading Server := do
  let fields ← Fields.read ["hostname", "port", "path"] place
  let hostname ← fields.orElse "hostname" Format.text "localhost"
  let port ← fields.orElse "port"
    (fun place => UInt16.ofNat <$> Format.natural (2 ^ 16) place) 8080
  let path ← fields.orElse "path" Format.text "wss"
  pure { hostname, port, path }

/-- Read a mode by its name. -/
def SaveMode.read (place : Yaml.Place) : Reading SaveMode := do
  let name ← place.choice
  .ofOption (SaveMode.ofName? name)

/-- Read where and how configurations are saved. -/
def ExportSettings.read (place : Yaml.Place) : Reading ExportSettings := do
  let fields ← Fields.read ["output_dir", "save_mode"] place
  let outputDir ← fields.orElse "output_dir" Format.text "."
  let saveMode ← fields.orElse "save_mode" SaveMode.read .auto
  pure { outputDir, saveMode }

namespace Settings

/-- Read settings. -/
def read (place : Yaml.Place) : Reading Settings := do
  let fields ← Fields.read ["server", "export"] place
  let server ← fields.orElse "server" Server.read {}
  let exporting ← fields.orElse "export" ExportSettings.read {}
  pure { server, exporting }

/-- The first rule that settings break: there is a host name and an output
    directory, and the port is not zero. -/
def violation? (s : Settings) : Option Violation :=
  if Text.AllBlank s.server.hostname then some .emptyHostname
  else if s.server.port = 0 then some .zeroPort
  else if Text.AllBlank s.exporting.outputDir then some .emptyOutputDir
  else none

/-- The settings, if they keep the rules. -/
def validate (s : Settings) : Except Failure Settings :=
  match s.violation? with
  | some v => .error (.violation v)
  | none => .ok s

/-- The settings that a text describes, if they keep the rules. -/
def ofYaml (text : String) : Except Failure Settings :=
  if Text.AllBlank text then validate {}
  else
    match Yaml.readText? read text with
    | some s => s.validate
    | none => .error (.request .malformedConfig)

/-- Settings with another server, as far as one is given. -/
def override (s : Settings) (hostname : Option String) (port : Option UInt16)
    (path : Option String) : Except Failure Settings :=
  validate { s with
    server :=
      { hostname := hostname.getD s.server.hostname
        port := port.getD s.server.port
        path := path.getD s.server.path } }

/-- Settings as a tree. -/
def toTree (s : Settings) : Yaml.Tree :=
  .mapping [
    ("server", .mapping [("hostname", .text s.server.hostname), ("port", .int s.server.port.toNat),
      ("path", .text s.server.path)]),
    ("export", .mapping [("output_dir", .text s.exporting.outputDir),
      ("save_mode", .text s.exporting.saveMode.name)])]

/-- The text of a settings file. -/
def toYaml (s : Settings) : String := s.toTree.write

end Settings

end SimStudio

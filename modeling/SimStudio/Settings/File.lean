import SimStudio.Machine
import SimStudio.Settings

/-!
# Settings Files

Where settings come from: a file that is named, which has to be there, or else
a file of a fixed name in a directory, which need not be.

## Main definitions

* `Settings.load`: Read settings from a file.
* `Settings.resolve`: The settings that count.
-/

namespace SimStudio

namespace Settings

/-- The name of a settings file. -/
def defaultFilename : String := "simcfg.yaml"

/-- The settings that the content of a file describes. -/
def ofFile (path : Path) (content : Option ByteArray) : Except Failure Settings :=
  match content.bind String.fromUTF8? with
  | none => .error (.request (.unreadableConfig path.text))
  | some text => ofYaml text

variable {m : Type → Type} [Machine m]

/-- Read settings from a file. -/
def load (path : Path) : m (Except Failure Settings) := do
  return ofFile path (← Machine.readFile path)

/-- The settings that count: those of a named file, those of a directory, or
    those that everybody has. -/
def resolve (named : Option Path) (directory : Path) : m (Except Failure Settings) := do
  match named with
  | some path => load path
  | none =>
      let path := directory.join defaultFilename
      if ← Machine.isFile path then
        Machine.log .debug "loading config" [("path", path.text)]
        load path
      else pure (.ok {})

end Settings

end SimStudio

import SimStudio.Project.Tree
import SimStudio.Project.Validity
import SimStudio.Save

/-!
# Project Files

Projects in files. The ending of a file's name says in which format it is read:
JSON if it is that of JSON files, and YAML otherwise. What is written is always
YAML.

## Main definitions

* `Project.load`: Read a project from a file.
* `Project.save`: Write a project to a file.
-/

namespace SimStudio

namespace Project

/-- The format in which a file is read. -/
def formatOf (path : Path) : DocumentFormat := if path.isJson then .json else .yaml

/-- The project that the content of a file describes. -/
def ofFile (path : Path) (content : Option ByteArray) : Except Failure Project :=
  match content.bind String.fromUTF8? with
  | none => .error (.request (.unreadableProject path.text))
  | some text => ofText (formatOf path) text

variable {m : Type → Type} [Machine m]

/-- Read a project from a file. -/
def load (path : Path) : m (Except Failure Project) := do
  return ofFile path (← Machine.readFile path)

/-- Write a project to a file. -/
def save (p : Project) (path : Path) : m (Except Failure Unit) :=
  writeTextAtomically path p.toYaml

end Project

end SimStudio

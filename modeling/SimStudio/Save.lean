import SimStudio.Failure
import SimStudio.Machine

/-!
# Saving a Text

A file is never written in place. A new file beside it takes the content, which
has to be on the disk, and then its name; if one of these steps fails the new file
goes away, so that the target has either its old content or the new one.

## Main definitions

* `fillAndReplace`: Let a new file take the stead of another one.
* `writeAtomically`: Give a file a new content.
* `SaveOutcome`: How saving ended.
-/

namespace SimStudio

/-- How saving ended. -/
inductive SaveOutcome
  | saved (path : Path)
  | cancelled
  deriving DecidableEq, Inhabited

/-- The directory in which a file is to stand. -/
def directoryOf (p : Path) : Path :=
  match p.parent? with
  | some above => if above.text.isEmpty then ⟨"."⟩ else above
  | none => ⟨"."⟩

variable {m : Type → Type} [Machine m]

/-- Create a directory that is missing. -/
def ensureDirectory (directory : Path) : m Bool := do
  if ← Machine.holds directory then pure true else Machine.createDirectories directory

/-- Give a new file a content, and let it take the stead of a file then. -/
def fillAndReplace (temporary p : Path) (content : ByteArray) : m (Except SaveError Unit) := do
  if ← Machine.write temporary content then
    if ← Machine.sync temporary then
      if ← Machine.replace temporary p then pure (.ok ())
      else pure (.error (.replacement p.text))
    else pure (.error .temporarySync)
  else pure (.error .temporaryWrite)

/-- Give a file a new content, with all directories that it needs. -/
def writeAtomically (p : Path) (content : ByteArray) : m (Except Failure Unit) := do
  let directory := directoryOf p
  if ← ensureDirectory directory then
    match ← Machine.createTemporary directory with
    | none => pure (.error (.save (.temporaryFile directory.text)))
    | some temporary =>
        match ← fillAndReplace temporary p content with
        | .ok () => pure (.ok ())
        | .error e => do
            Machine.remove temporary
            pure (.error (.save e))
  else pure (.error (.save (.parentDirectory directory.text)))

/-- Give a file a text as its content. -/
def writeTextAtomically (p : Path) (text : String) : m (Except Failure Unit) :=
  writeAtomically p text.toUTF8

end SimStudio

import SimStudio.Save
import SimStudio.Text.Blank

/-!
# Picking a Place

Saving where somebody says to which place. The place is either given
beforehand or asked for. A question is answered by one line: a path, nothing to
accept what is proposed, or the letter q to cancel. Where the input has ended,
that cancels, too.

A place that is a directory stands for the proposed name in it.

## Main definitions

* `Picker`: How a place is picked.
* `Picker.pick`: The place, unless picking was cancelled.
* `Picker.save`: Save a text where it is picked.
-/

namespace SimStudio

/-- How a place is picked. -/
inductive Picker
  /-- It was given beforehand. -/
  | fixed (path : Path)
  /-- It is asked for; what is proposed is in a directory. -/
  | prompt (directory : Path)
  deriving DecidableEq, Inhabited

/-- What an answer says. -/
inductive Answer
  | cancel
  | accept
  | place (path : String)
  deriving DecidableEq, Inhabited

/-- What a line of input says. -/
def Answer.ofLine (line : String) : Answer :=
  let answer := Text.trim line
  if line.isEmpty || answer == "q" || answer == "Q" then cancel
  else if answer.isEmpty then accept
  else place answer

namespace Picker

variable {m : Type → Type} [Machine m]

/-- The file that a chosen path stands for. -/
def resolve (path : Path) (filename : String) : m Path := do
  if ← Machine.isDirectory path then pure (path.join filename) else pure path

/-- The place that is picked for a name; none if picking is cancelled. -/
def pick (picker : Picker) (filename : String) : m (Except Failure (Option Path)) := do
  match picker with
  | fixed path => return .ok (some (← resolve path filename))
  | prompt directory =>
      let proposed := directory.join filename
      Machine.prompt ("Save as [" ++ proposed.text ++ "] (q to cancel): ")
      match String.fromUTF8? (← Machine.readLine) with
      | none => pure (.error (.save .locationRead))
      | some line =>
          match Answer.ofLine line with
          | .cancel => pure (.ok none)
          | .accept => pure (.ok (some proposed))
          | .place path => return .ok (some (← resolve ⟨path⟩ filename))

/-- Save a text where it is picked. -/
def save (picker : Picker) (text filename : String) : m (Except Failure SaveOutcome) := do
  match ← picker.pick filename with
  | .error e => pure (.error e)
  | .ok none => pure (.ok .cancelled)
  | .ok (some path) =>
      match ← writeTextAtomically path text with
      | .ok () => pure (.ok (.saved path))
      | .error e => pure (.error e)

end Picker

end SimStudio

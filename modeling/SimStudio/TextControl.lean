import SimStudio.Splice

/-!
# Text Controls

A field on a screen in which a text is edited, and how something is put in at
its selection.

A control does not own its text. What is put in is handed to the owner, who
decides what to show next and renders the control with it. Only then can the
caret be placed, since before that the control does not hold the new text. So
the caret waits in a scheduler until the owner says that the new value is on
the screen. If several wait, the last one counts.

## Main definitions

* `TextControl`: A text on the screen, with selection and focus.
* `CaretScheduler`: A caret that waits for the next value.
* `TextControl.insert`: Splice a literal in at the selection.
* `CaretScheduler.afterCommit`: Place the caret that waits.
-/

namespace SimStudio

/-- A text on the screen. The selection is given in characters. -/
structure TextControl where
  value : String
  selection : Nat × Nat
  focused : Bool := false
  deriving DecidableEq, Inhabited

/-- A caret that waits until a new value has been rendered. -/
structure CaretScheduler where
  pending : Option Nat := none
  deriving DecidableEq, Inhabited

namespace CaretScheduler

/-- Let a caret wait, in the place of any other. -/
def schedule (_ : CaretScheduler) (caret : Nat) : CaretScheduler := ⟨some caret⟩

end CaretScheduler

namespace TextControl

/-- A control with the caret at the end of its text. -/
def new (value : String) : TextControl := ⟨value, (value.length, value.length), false⟩

/-- The control with another selection. -/
def select (c : TextControl) (first last : Nat) : TextControl := { c with selection := (first, last) }

/-- The control with another text. The selection is kept as far as the text
    reaches. -/
def render (c : TextControl) (value : String) : TextControl :=
  { c with
    value
    selection := (min c.selection.1 value.length, min c.selection.2 value.length) }

/-- The control with the focus. -/
def focus (c : TextControl) : TextControl := { c with focused := true }

/-- Splice a literal in at the selection of a control. The result is for the
    owner of the text, and its caret waits. Without a control nothing happens. -/
def insert (target : Option TextControl) (literal : String) (scheduler : CaretScheduler) :
    Except Fault (Option Splice × CaretScheduler) :=
  match target with
  | none => .ok (none, scheduler)
  | some c => do
      let s ← splice c.value c.selection.1 c.selection.2 literal
      pure (some s, scheduler.schedule s.caret)

end TextControl

/-- Place the caret that waits, if there is one, and give the control the
    focus. -/
def CaretScheduler.afterCommit (scheduler : CaretScheduler) (c : TextControl) :
    Option Nat × CaretScheduler × TextControl :=
  match scheduler.pending with
  | none => (none, scheduler, c)
  | some caret => (some caret, ⟨none⟩, (c.select caret caret).focus)

end SimStudio

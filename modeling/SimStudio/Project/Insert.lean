import SimStudio.Failure
import SimStudio.Project.Edit
import SimStudio.TextControl

/-!
# Inserting into Prompts

Editing the prompt of a role outside of any screen: a control is set up with
the prompt, the literal is spliced in at the selection, and the result goes
back into the slot. A slot that is missing counts as empty, and comes into
being only when the edit succeeds.

## Main definitions

* `Project.Edit`: What is done to a project, step by step.
* `Project.insertIntoPrompt`: Splice a literal into a prompt.
-/

namespace SimStudio

/-- The prompt in a slot of a role, or the empty text. -/
def Role.prompt (r : Role) (slot : String) : String := (r.prompts.get? slot).getD ""

namespace Project

/-- An edit of a project, which may come to an end before its time. What was
    changed until then stays. -/
abbrev Edit := ExceptT Stop (StateM Project)

/-- The control in which a prompt is edited, with a selection within it if one
    is given. -/
def promptControl (text : String) (selection : Option (Nat × Nat)) :
    Except RequestError TextControl :=
  let c := TextControl.new text
  match selection with
  | none => .ok c
  | some (first, last) =>
      if last < first ∨ text.length < last then
        .error (.selectionOutside first last text.length)
      else .ok (c.select first last)

/-- Splice a literal into a slot of the first role with an id. Without a
    selection it goes to the end of the prompt. The caret behind it is
    reported. -/
def insertIntoPrompt (id : UInt32) (slot literal : String) (selection : Option (Nat × Nat)) :
    Edit Nat := do
  match (← get).role? id with
  | none => throw (.failed (.request (.noRole id)))
  | some role =>
      match promptControl (role.prompt slot) selection with
      | .error e => throw (.failed (.request e))
      | .ok control =>
          match TextControl.insert (some control) literal {} with
          | .error f => throw (.faulted f)
          | .ok (committed, scheduler) =>
              let control ← match committed with
                | none => pure control
                | some s => do
                    modify fun p => (p.updateRole? id fun r =>
                      { r with prompts := r.prompts.insert slot s.text }).getD p
                    pure (control.render s.text)
              let (caret, _, control) := scheduler.afterCommit control
              pure (caret.getD control.selection.2)

end Project

end SimStudio

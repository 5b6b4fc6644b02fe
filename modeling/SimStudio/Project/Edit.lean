import SimStudio.Fault
import SimStudio.Project

/-!
# Editing Projects

The steps by which a project is put together. Roles are numbered on: a new role
gets the number after the greatest of the others, and the first role number one.
That number need not exist, since the greatest may be the last word.

Where a role is named by its id, the first with that id is meant.

## Main definitions

* `Project.nextRoleId`: The id that the next new role gets.
* `Project.addRole`: Add a new role.
* `Project.updateRole?`: Change a role.
* `Project.materialize`: Turn a draft into a stored project.
-/

namespace SimStudio

/-- A role without prompts, of one agent. -/
def Role.new (id : UInt32) (name model : String) : Role := { id, name, model, count := 1 }

/-- Change the first role with an id. -/
def updateFirstRole (id : UInt32) (change : Role → Role) : List Role → List Role
  | [] => []
  | r :: rest => if r.id = id then change r :: rest else r :: updateFirstRole id change rest

namespace Project

/-- The id that the next new role gets. -/
def nextRoleId (p : Project) : Except Fault UInt32 :=
  match (p.roles.map Role.id).max? with
  | none => .ok 1
  | some greatest => addWords greatest 1

/-- Add a role with the next id, which is reported. -/
def addRole (p : Project) (name model : String) : Except Fault (Project × UInt32) := do
  let id ← p.nextRoleId
  pure ({ p with roles := p.roles ++ [Role.new id name model] }, id)

/-- Change the first role with an id, if there is one. -/
def updateRole? (p : Project) (id : UInt32) (change : Role → Role) : Option Project :=
  (p.role? id).map fun _ => { p with roles := updateFirstRole id change p.roles }

/-- The project with an id and a time of its own, whatever it had before. -/
def materialize (p : Project) (id : String) (now : Timestamp) : Project :=
  { p with id, createdAt := some now }

end Project

end SimStudio

import SimStudio.Project
import SimStudio.Yaml.Tree.Write

/-!
# Projects as Trees

How a project is laid out in its file: which fields come in which order, under
which names, and which are left out. Left out is what a reader would fill in by
itself: an empty id, and options that are absent. All else is written, empty or
not.

## Main definitions

* `Project.toTree`: A project as a tree.
* `Summary.toTree`: What a list of projects shows.
* `Project.toYaml`: The text of a project file.
-/

namespace SimStudio

open Yaml (Tree)

/-- A text as a tree. -/
def textTree (s : String) : Tree := .text s

/-- A word as a tree. -/
def wordTree (n : UInt32) : Tree := .int n.toNat

/-- An entry that is left out when its value is absent. -/
def optionalEntry {α : Type} (name : String) (toTree : α → Tree) (v : Option α) :
    List (String × Tree) :=
  match v with
  | some v => [(name, toTree v)]
  | none => []

/-- A map as a tree, in the order of its keys. -/
def StringMap.toTree {α : Type} (valueTree : α → Tree) (m : StringMap α) : Tree :=
  .mapping (m.entries.map fun (key, v) => (key, valueTree v))

/-- A partial as a tree. -/
def PromptPartial.toTree (p : PromptPartial) : Tree :=
  .mapping [("id", .text p.id), ("name", .text p.name), ("content", .text p.content)]

/-- A role as a tree. -/
def Role.toTree (r : Role) : Tree :=
  .mapping ([("roleId", wordTree r.id), ("name", .text r.name), ("llmType", .text r.model),
    ("llmParams", r.parameters.toTree Json.toTree), ("numberOfAgents", wordTree r.count),
    ("prompts", r.prompts.toTree textTree)] ++
    optionalEntry "taskPhases" (fun phases => .sequence (phases.map wordTree)) r.phases)

/-- A field of the shared state as a tree. -/
def StateField.toTree (f : StateField) : Tree :=
  .mapping ([("name", .text f.name), ("type", .text f.type)] ++
    optionalEntry "default" Json.toTree f.default)

/-- The schema of the shared state as a tree. -/
def StateSchema.toTree (s : StateSchema) : Tree :=
  let space (fields : List StateField) : Tree := .sequence (fields.map StateField.toTree)
  .mapping [("metaInformation", space s.metaFields), ("publicInformation", space s.publicFields),
    ("privateInformation", space s.privateFields)]

/-- A manager as a tree, its kind first. -/
def Manager.toTree (m : Manager) : Tree :=
  .mapping (("type", .text m.typeName) ::
    match m with
    | turnBased => []
    | hybrid phases maxDelay minDelay =>
        [("continuousPhases", .sequence (phases.map wordTree)),
          ("maxActionDelay", .float maxDelay), ("minActionDelay", .float minDelay)])

/-- How a project is to be logged, as a tree. -/
def Logging.toTree (l : Logging) : Tree :=
  .mapping (("level", .text l.level) :: optionalEntry "directory" textTree l.directory)

/-- A moment as a tree. -/
def Timestamp.toTree (t : Timestamp) : Tree := .text t.text

namespace Project

/-- A project as a tree. -/
def toTree (p : Project) : Tree :=
  .mapping ((if p.id.isEmpty then [] else [("id", .text p.id)]) ++
    optionalEntry "createdAt" Timestamp.toTree p.createdAt ++
    [("name", .text p.name)] ++
    optionalEntry "description" textTree p.description ++
    optionalEntry "gameId" (fun i : Int64 => .int i.toInt) p.gameId ++
    [("promptPartials", .sequence (p.partials.map PromptPartial.toTree)),
      ("agentRoles", .sequence (p.roles.map Role.toTree)),
      ("state", p.state.toTree), ("manager", p.manager.toTree), ("logging", p.logging.toTree)])

/-- The text of a project file. -/
def toYaml (p : Project) : String := p.toTree.write

end Project

/-- What a list of projects shows, as a tree. -/
def Summary.toTree (s : Summary) : Tree :=
  .mapping ([("id", .text s.id), ("name", .text s.name)] ++
    optionalEntry "description" textTree s.description ++
    [("createdAt", match s.createdAt with
      | some t => t.toTree
      | none => .null)])

end SimStudio

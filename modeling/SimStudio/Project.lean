import SimStudio.Json
import SimStudio.Timestamp

/-!
# Projects

A simulation of many agents as its author describes it: who takes part and
with which prompts, what state the agents share, and how the phases of the
simulation follow one another.

Ids, counts and phase numbers are words of 32 bits, as they are for the runner
of the simulation; a game id has 64 bits with a sign and a port 16.

## Main definitions

* `PromptPartial`: A block of prompt text with a name.
* `Role`: A kind of agent, with its prompts.
* `StateField`, `StateSchema`: The state that agents share.
* `Manager`: How phases follow one another.
* `Project`: All of it.
* `Summary`: What a list of projects shows.
* `Server`: Where a simulation is to run.
-/

namespace SimStudio

/-- A block of prompt text that prompts can include by its name. -/
structure PromptPartial where
  id : String
  name : String
  content : String := ""
  deriving DecidableEq, Inhabited

/-- A kind of agent and the prompts it runs with. -/
structure Role where
  id : UInt32
  name : String
  model : String := ""
  /-- Passed on to the model as they are. -/
  parameters : StringMap Json := {}
  count : UInt32 := 0
  /-- Texts by the names of their slots. -/
  prompts : StringMap String := {}
  phases : Option (List UInt32) := none
  deriving Inhabited

/-- A field of the shared state. A default that is null is not the same as
    none. -/
structure StateField where
  name : String
  type : String
  default : Option Json := none
  deriving Inhabited

/-- The three namespaces of the shared state. -/
inductive StateNamespace
  | metaInfo
  | publicInfo
  | privateInfo
  deriving DecidableEq, Inhabited

namespace StateNamespace

/-- The namespaces in the order in which they are listed. -/
def all : List StateNamespace := [metaInfo, publicInfo, privateInfo]

end StateNamespace

/-- The fields of the shared state, by namespace. -/
structure StateSchema where
  metaFields : List StateField := []
  publicFields : List StateField := []
  privateFields : List StateField := []
  deriving Inhabited

namespace StateSchema

/-- The fields of a namespace. -/
def fields (schema : StateSchema) : StateNamespace → List StateField
  | .metaInfo => schema.metaFields
  | .publicInfo => schema.publicFields
  | .privateInfo => schema.privateFields

/-- Whether no field is declared. -/
def isEmpty (schema : StateSchema) : Bool :=
  StateNamespace.all.all fun n => (schema.fields n).isEmpty

end StateSchema

/-- How the phases of a simulation follow one another. -/
inductive Manager
  /-- One phase at a time, in turn. -/
  | turnBased
  /-- The listed phases go on all the time, and actions are delayed. -/
  | hybrid (continuousPhases : List UInt32) (maxDelay minDelay : Binary64)
  deriving DecidableEq, Inhabited

namespace Manager

/-- The name of the kind of manager. -/
def typeName : Manager → String
  | turnBased => "TurnBasedPhaseManager"
  | hybrid .. => "HybridPhaseManager"

/-- Delays are never written with an exponent, whole ones have no point, and a
    half goes to the greater digit. -/
def delayLayout : FloatLayout := ⟨.up, none, false, false⟩

end Manager

/-- How a project is to be logged. -/
structure Logging where
  level : String := "INFO"
  directory : Option String := none
  deriving DecidableEq, Inhabited

/-- Where a simulation is to run. -/
structure Server where
  hostname : String := "localhost"
  port : UInt16 := 8080
  path : String := "wss"
  deriving DecidableEq, Inhabited

/-- A simulation as its author describes it. -/
structure Project where
  /-- Given when the project is stored; a draft has none. -/
  id : String := ""
  /-- Given together with the id. -/
  createdAt : Option Timestamp := none
  name : String
  description : Option String := none
  gameId : Option Int64 := none
  partials : List PromptPartial := []
  roles : List Role := []
  state : StateSchema := {}
  manager : Manager := .turnBased
  logging : Logging := {}
  deriving Inhabited

/-- What a list of projects shows of each. -/
structure Summary where
  id : String
  name : String
  description : Option String
  createdAt : Option Timestamp
  deriving DecidableEq, Inhabited

namespace Project

/-- What a list of projects shows of this one. -/
def summary (p : Project) : Summary := ⟨p.id, p.name, p.description, p.createdAt⟩

/-- The first role with an id. -/
def role? (p : Project) (id : UInt32) : Option Role := p.roles.find? (·.id == id)

/-- The first partial with a name. -/
def partial? (p : Project) (name : String) : Option PromptPartial :=
  p.partials.find? (·.name == name)

end Project

end SimStudio
